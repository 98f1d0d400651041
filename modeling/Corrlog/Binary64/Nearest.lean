import Mathlib.Algebra.Order.Field.Basic
import Mathlib.Algebra.Order.Group.Abs
import Mathlib.Algebra.Ring.Parity
import Mathlib.Order.Monotone.Basic
import Mathlib.Tactic.Linarith

/-!
# Rounding to nearest on an increasing sequence

A number format with finitely many digits is an increasing sequence of points
of an ordered field.  Rounding `x` to nearest, ties to even, picks the index of
a point at the least distance from `x`, and the even one of two indices at the
same distance.

The index is unique (`NearestEven.unique`), a point rounds to itself
(`NearestEven.of_point`) and rounding is monotone (`NearestEven.mono`).
`NearestEven.of_cell` is how an implementation meets the relation: find the
cell `[g i, g (i + 1)]` that holds `x` and compare `x` with its midpoint.
-/

namespace Rounding

variable {K : Type*} [Field K] [LinearOrder K] [IsStrictOrderedRing K]

/-- `g i` is a point nearest to `x`, and `i` is even if another point is as near. -/
structure NearestEven (g : ℕ → K) (x : K) (i : ℕ) : Prop where
  /-- No point is nearer. -/
  nearest : ∀ j, |x - g i| ≤ |x - g j|
  /-- A tie goes to the even index. -/
  tie : ∀ j, j ≠ i → |x - g j| = |x - g i| → Even i

namespace NearestEven

variable {g : ℕ → K} {x y : K} {i j : ℕ}

theorem of_point (hg : StrictMono g) (i : ℕ) : NearestEven g (g i) i where
  nearest j := by simp
  tie j hne h := by
    have h0 : g i - g j = 0 := by simpa using h
    exact absurd (hg.injective (sub_eq_zero.mp h0).symm) hne

/-- A point nearer to `x` than a larger one puts `x` at or below their midpoint. -/
theorem two_mul_le (hxy : |x - g j| ≤ |x - g i|) (hlt : g j < g i) : 2 * x ≤ g j + g i := by
  by_contra h
  have h1 : g j < x := by linarith
  have h2 : |x - g j| = x - g j := abs_of_pos (by linarith)
  rw [h2] at hxy
  rcases abs_cases (x - g i) with ⟨h3, _⟩ | ⟨h3, _⟩
  · linarith
  · linarith

/-- A point nearer to `x` than a smaller one puts `x` at or above their midpoint. -/
theorem le_two_mul (hxy : |x - g i| ≤ |x - g j|) (hlt : g j < g i) : g j + g i ≤ 2 * x := by
  by_contra h
  have h1 : x < g i := by linarith
  have h2 : |x - g i| = g i - x := by rw [abs_of_neg (by linarith), neg_sub]
  rw [h2] at hxy
  rcases abs_cases (x - g j) with ⟨h3, _⟩ | ⟨h3, _⟩
  · linarith
  · linarith

/-- Two points equally near to `x` are neighbours. -/
theorem succ_of_tie (hg : StrictMono g) (hi : NearestEven g x i) (hlt : j < i)
    (hmid : 2 * x = g j + g i) : i = j + 1 := by
  by_contra hne
  have h1 : g j < g (j + 1) := hg (Nat.lt_succ_self j)
  have h2 : g (j + 1) < g i := hg (by omega)
  have h3 : |x - g i| = g i - x := by rw [abs_of_nonpos (by linarith), neg_sub]
  have h4 := hi.nearest (j + 1)
  rw [h3] at h4
  rcases abs_cases (x - g (j + 1)) with ⟨h5, _⟩ | ⟨h5, _⟩
  · linarith
  · linarith

/-- Rounding is monotone. -/
theorem mono (hg : StrictMono g) (hxy : x ≤ y) (hi : NearestEven g x i)
    (hj : NearestEven g y j) : i ≤ j := by
  by_contra hlt
  have hji : j < i := by omega
  have hgji : g j < g i := hg hji
  have h1 := le_two_mul (hi.nearest j) hgji
  have h2 := two_mul_le (hj.nearest i) hgji
  have hx : x = y := by linarith
  subst hx
  -- both are nearest to one midpoint, so both would have to be even
  have hmid : 2 * x = g j + g i := by linarith
  have hsucc := succ_of_tie hg hi hji hmid
  have hdist : |x - g j| = |x - g i| := le_antisymm (hj.nearest i) (hi.nearest j)
  have ei := hi.tie j (by omega) hdist
  have ej := hj.tie i (by omega) hdist.symm
  rw [hsucc, Nat.even_add_one] at ei
  exact ei ej

theorem unique (hg : StrictMono g) (hi : NearestEven g x i) (hj : NearestEven g x j) : i = j :=
  le_antisymm (mono hg le_rfl hi hj) (mono hg le_rfl hj hi)

/-- The distance to a point outside the cell of `x` is at least the one to its near end. -/
theorem cell_le (hg : StrictMono g) (x : K) (i j : ℕ) :
    (j ≤ i → x - g i ≤ |x - g j|) ∧ (i + 1 ≤ j → g (i + 1) - x ≤ |x - g j|) := by
  constructor
  · intro hj
    have := hg.monotone hj
    exact le_trans (by linarith) (le_abs_self _)
  · intro hj
    have := hg.monotone hj
    exact le_trans (by linarith) (neg_le_abs _)

theorem of_cell_lt (hg : StrictMono g) (hlo : g i ≤ x) (h : 2 * x < g i + g (i + 1)) :
    NearestEven g x i := by
  have hhi : x ≤ g (i + 1) := by
    have := hg (Nat.lt_succ_self i)
    linarith
  have habs : |x - g i| = x - g i := abs_of_nonneg (by linarith)
  constructor
  · intro j
    rw [habs]
    obtain ⟨h1, h2⟩ := cell_le hg x i j
    rcases Nat.lt_or_ge i j with hj | hj
    · have := h2 hj
      linarith
    · exact h1 hj
  · intro j hne hd
    rw [habs] at hd
    obtain ⟨_, h2⟩ := cell_le hg x i j
    rcases Nat.lt_or_ge i j with hj | hj
    · have := h2 hj
      linarith
    · have hlt : g j < g i := hg (by omega)
      have : x - g j ≤ |x - g j| := le_abs_self _
      linarith

theorem of_cell_gt (hg : StrictMono g) (hhi : x ≤ g (i + 1)) (h : g i + g (i + 1) < 2 * x) :
    NearestEven g x (i + 1) := by
  have hlo : g i ≤ x := by
    have := hg (Nat.lt_succ_self i)
    linarith
  have habs : |x - g (i + 1)| = g (i + 1) - x := by rw [abs_of_nonpos (by linarith), neg_sub]
  constructor
  · intro j
    rw [habs]
    obtain ⟨h1, h2⟩ := cell_le hg x i j
    rcases Nat.lt_or_ge i j with hj | hj
    · exact h2 hj
    · have := h1 hj
      linarith
  · intro j hne hd
    rw [habs] at hd
    obtain ⟨h1, _⟩ := cell_le hg x i j
    rcases Nat.lt_or_ge i j with hj | hj
    · have hlt : g (i + 1) < g j := hg (by omega)
      have : -(x - g j) ≤ |x - g j| := neg_le_abs _
      linarith
    · have := h1 hj
      linarith

/-- At the midpoint of a cell the even end is the rounded one. -/
theorem of_cell_eq (hg : StrictMono g) (h : 2 * x = g i + g (i + 1)) :
    NearestEven g x (if i % 2 = 0 then i else i + 1) := by
  have hstep := hg (Nat.lt_succ_self i)
  have hlo : g i ≤ x := by linarith
  have hhi : x ≤ g (i + 1) := by linarith
  have hi : |x - g i| = x - g i := abs_of_nonneg (by linarith)
  have hs : |x - g (i + 1)| = g (i + 1) - x := by rw [abs_of_nonpos (by linarith), neg_sub]
  have hmin : ∀ j, x - g i ≤ |x - g j| := by
    intro j
    obtain ⟨h1, h2⟩ := cell_le hg x i j
    rcases Nat.lt_or_ge i j with hj | hj
    · have := h2 hj
      linarith
    · exact h1 hj
  split
  next heven =>
    exact ⟨fun j => by rw [hi]; exact hmin j, fun _ _ _ => Nat.even_iff.mpr heven⟩
  next hodd =>
    refine ⟨fun j => ?_, fun _ _ _ => Nat.even_iff.mpr (by omega)⟩
    rw [hs]
    have := hmin j
    linarith

end NearestEven

end Rounding
