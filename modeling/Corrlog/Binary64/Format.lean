import Corrlog.Binary64.Nearest
import Mathlib.Data.Nat.Log
import Mathlib.Data.Rat.Cast.Order
import Mathlib.Algebra.Order.Ring.Rat
import Mathlib.Algebra.Order.Field.Rat
import Mathlib.Tactic.FieldSimp
import Mathlib.Tactic.Positivity
import Mathlib.Tactic.Ring

/-!
# IEEE 754 binary64

A finite binary64 number is a sign and the 63 low bits of its encoding.  The
low bits, read as a number `i`, count the magnitudes in increasing order:
`grid i` is the `i`-th one in units of `2 ^ -1074`, the least positive
magnitude.  The biased exponent is `i / 2 ^ 52` and the fraction `i % 2 ^ 52`,
so the parity of `i` is the parity of the significand, and rounding to nearest
even is `Rounding.NearestEven` on the grid.

The grid goes on past the finite range.  The first index outside it,
`2047 * 2 ^ 52`, has the magnitude `2 ^ 1024`, and a number that rounds to it or
beyond it overflows.

`roundRatio` rounds a ratio of natural numbers and uses natural numbers only.
`roundRatio_nearest` is its one specification lemma.  That it depends on the
ratio alone, keeps the grid points and is monotone follows from the relation.
-/

namespace Binary64

open Rounding

/-! ## The grid of magnitudes -/

/-- The magnitude with index `i`, in units of `2 ^ -1074`. -/
def grid (i : ℕ) : ℕ :=
  if i / 2 ^ 52 = 0 then i else (2 ^ 52 + i % 2 ^ 52) * 2 ^ (i / 2 ^ 52 - 1)

/-- The indices from `s * 2 ^ 52 + 2 ^ 52` on are `2 ^ s` units apart.  The
subnormal numbers are the block `s = 0` from below. -/
theorem grid_block {s m : ℕ} (hlo : 2 ^ 52 ≤ m ∨ s = 0) (hhi : m ≤ 2 ^ 53) :
    grid (s * 2 ^ 52 + m) = m * 2 ^ s := by
  rcases Nat.lt_or_ge m (2 ^ 52) with hm | hm
  · have hs : s = 0 := by omega
    subst hs
    have h0 : m / 2 ^ 52 = 0 := Nat.div_eq_of_lt hm
    rw [Nat.zero_mul, Nat.zero_add, grid, if_pos h0, pow_zero, Nat.mul_one]
  · rcases Nat.lt_or_ge m (2 ^ 53) with hm' | hm'
    · have hq : (s * 2 ^ 52 + m) / 2 ^ 52 = s + 1 := by omega
      have hr : (s * 2 ^ 52 + m) % 2 ^ 52 = m - 2 ^ 52 := by omega
      rw [grid, if_neg (by omega), hq, hr, Nat.add_sub_of_le hm, Nat.add_sub_cancel]
    · have hm2 : m = 2 ^ 53 := by omega
      subst hm2
      have hq : (s * 2 ^ 52 + 2 ^ 53) / 2 ^ 52 = s + 2 := by omega
      have hr : (s * 2 ^ 52 + 2 ^ 53) % 2 ^ 52 = 0 := by omega
      rw [grid, if_neg (by omega), hq, hr]
      have : s + 2 - 1 = s + 1 := by omega
      rw [this, pow_succ]
      ring

/-- The next point of the grid is larger. -/
theorem grid_lt_succ (i : ℕ) : grid i < grid (i + 1) := by
  -- `i` is `s * 2 ^ 52 + m` with `m` in the block of `s`, and so is `i + 1`
  obtain ⟨s, m, rfl, hlo, hhi⟩ :
      ∃ s m, i = s * 2 ^ 52 + m ∧ (2 ^ 52 ≤ m ∨ s = 0) ∧ m < 2 ^ 53 := by
    rcases Nat.lt_or_ge i (2 ^ 52) with h | h
    · exact ⟨0, i, by omega, Or.inr rfl, by omega⟩
    · exact ⟨i / 2 ^ 52 - 1, i % 2 ^ 52 + 2 ^ 52, by omega, Or.inl (by omega), by omega⟩
  rw [grid_block hlo hhi.le, Nat.add_assoc, grid_block (by omega) (by omega)]
  exact Nat.mul_lt_mul_of_pos_right (Nat.lt_succ_self m) (Nat.two_pow_pos s)

theorem grid_strictMono : StrictMono grid := strictMono_nat_of_lt_succ grid_lt_succ

@[simp] theorem grid_zero : grid 0 = 0 := rfl

/-- The grid as a sequence of rationals. -/
def gridRat (i : ℕ) : ℚ := (grid i : ℚ)

theorem gridRat_strictMono : StrictMono gridRat := fun _ _ h =>
  Nat.cast_lt.mpr (grid_strictMono h)

/-! ## The cell of a natural number -/

/-- The index of the greatest magnitude of at most `t` units. -/
def cell (t : ℕ) : ℕ :=
  (Nat.log2 t - 52) * 2 ^ 52 + t / 2 ^ (Nat.log2 t - 52)

/-- Every number lies between two neighbours of the grid. -/
theorem cell_spec (t : ℕ) : grid (cell t) ≤ t ∧ t < grid (cell t + 1) := by
  by_cases ht : t = 0
  · subst ht
    decide
  have hlog : 2 ^ Nat.log2 t ≤ t ∧ t < 2 ^ (Nat.log2 t + 1) :=
    ⟨Nat.log2_self_le ht, Nat.lt_log2_self⟩
  obtain ⟨s, hs⟩ : ∃ s, Nat.log2 t - 52 = s := ⟨_, rfl⟩
  have hpos : 0 < 2 ^ s := Nat.two_pow_pos s
  have hm : t / 2 ^ s < 2 ^ 53 := by
    rw [Nat.div_lt_iff_lt_mul hpos, ← pow_add]
    exact lt_of_lt_of_le hlog.2 (Nat.pow_le_pow_right (by omega) (by omega))
  have hlo : 2 ^ 52 ≤ t / 2 ^ s ∨ s = 0 := by
    by_cases h0 : s = 0
    · exact Or.inr h0
    · left
      rw [Nat.le_div_iff_mul_le hpos, ← pow_add]
      exact le_trans (Nat.pow_le_pow_right (by omega) (by omega)) hlog.1
  rw [cell, hs, Nat.add_assoc, grid_block hlo hm.le, grid_block (by omega) (by omega)]
  have h1 := Nat.div_add_mod t (2 ^ s)
  have h2 := Nat.mod_lt t hpos
  constructor
  · exact Nat.div_mul_le_self t (2 ^ s)
  · rw [Nat.add_mul, Nat.mul_comm]
    omega

/-! ## Rounding a ratio -/

/-- The index nearest to `a / b` units, ties to even. -/
def roundRatio (a b : ℕ) : ℕ :=
  let i := cell (a / b)
  if 2 * a < (grid i + grid (i + 1)) * b then i
  else if (grid i + grid (i + 1)) * b < 2 * a then i + 1
  else if i % 2 = 0 then i else i + 1

/-- Rounding goes to the nearest point, and to the even one between two. -/
theorem roundRatio_nearest (a : ℕ) {b : ℕ} (hb : 0 < b) :
    NearestEven gridRat ((a : ℚ) / b) (roundRatio a b) := by
  obtain ⟨i, hi⟩ : ∃ i, cell (a / b) = i := ⟨_, rfl⟩
  have hspec := cell_spec (a / b)
  rw [hi] at hspec
  have hbq : (0 : ℚ) < b := Nat.cast_pos.mpr hb
  have hlo : gridRat i ≤ (a : ℚ) / b := by
    rw [gridRat, le_div_iff₀ hbq]
    exact_mod_cast (Nat.le_div_iff_mul_le hb).mp hspec.1
  have hhi : (a : ℚ) / b ≤ gridRat (i + 1) := by
    rw [gridRat, div_le_iff₀ hbq]
    exact_mod_cast ((Nat.div_lt_iff_lt_mul hb).mp hspec.2).le
  have hmid : 2 * ((a : ℚ) / b) = (2 * a : ℕ) / b := by push_cast; ring
  rw [roundRatio, hi]
  split
  next h =>
    refine NearestEven.of_cell_lt gridRat_strictMono hlo ?_
    rw [hmid, div_lt_iff₀ hbq, gridRat, gridRat]
    exact_mod_cast h
  next h =>
    split
    next h' =>
      refine NearestEven.of_cell_gt gridRat_strictMono hhi ?_
      rw [hmid, lt_div_iff₀ hbq, gridRat, gridRat]
      exact_mod_cast h'
    next h' =>
      refine NearestEven.of_cell_eq gridRat_strictMono ?_
      rw [hmid, div_eq_iff hbq.ne', gridRat, gridRat]
      exact_mod_cast (by omega : 2 * a = (grid i + grid (i + 1)) * b)

/-- Rounding depends on the ratio alone. -/
theorem roundRatio_congr {a b c d : ℕ} (hb : 0 < b) (hd : 0 < d) (h : a * d = c * b) :
    roundRatio a b = roundRatio c d := by
  have hq : (a : ℚ) / b = (c : ℚ) / d := by
    rw [div_eq_div_iff (by positivity) (by positivity)]
    exact_mod_cast h
  have h1 := roundRatio_nearest a hb
  rw [hq] at h1
  exact h1.unique gridRat_strictMono (roundRatio_nearest c hd)

/-- Rounding keeps the order. -/
theorem roundRatio_mono {a b c d : ℕ} (hb : 0 < b) (hd : 0 < d) (h : a * d ≤ c * b) :
    roundRatio a b ≤ roundRatio c d := by
  refine NearestEven.mono gridRat_strictMono ?_ (roundRatio_nearest a hb) (roundRatio_nearest c hd)
  rw [div_le_div_iff₀ (by positivity) (by positivity)]
  exact_mod_cast h

/-- A magnitude of the grid rounds to itself. -/
theorem roundRatio_of_grid {a b i : ℕ} (hb : 0 < b) (h : a = grid i * b) :
    roundRatio a b = i := by
  have hq : (a : ℚ) / b = gridRat i := by
    rw [h, gridRat, Nat.cast_mul, mul_div_assoc, div_self (by positivity), mul_one]
  have h1 := roundRatio_nearest a hb
  rw [hq] at h1
  exact h1.unique gridRat_strictMono (NearestEven.of_point gridRat_strictMono i)

@[simp] theorem roundRatio_zero {b : ℕ} (hb : 0 < b) : roundRatio 0 b = 0 :=
  roundRatio_of_grid hb (by simp)

end Binary64

/-! ## The numbers -/

/-- A binary64 number.  The magnitude of a finite one is its index on the grid. -/
inductive Binary64 where
  | finite (neg : Bool) (mag : Fin (2047 * 2 ^ 52))
  | inf (neg : Bool)
  | nan
deriving DecidableEq

namespace Binary64

/-- The number with a sign and an index, an infinity from `2 ^ 1024` on. -/
def ofIndex (neg : Bool) (i : ℕ) : Binary64 :=
  if h : i < 2047 * 2 ^ 52 then .finite neg ⟨i, h⟩ else .inf neg

/-- The finite numbers are numbered by their magnitude. -/
@[simp] theorem ofIndex_val (neg : Bool) (m : Fin (2047 * 2 ^ 52)) :
    ofIndex neg m.val = .finite neg m := by
  simp [ofIndex]

/-- Neither an infinity nor a NaN. -/
def isFinite : Binary64 → Bool
  | .finite _ _ => true
  | .inf _ => false
  | .nan => false

/-- The same number with zero positive: equality of the results is numerical
equality of finite numbers. -/
def normZero : Binary64 → Binary64
  | .finite neg m => if m.val = 0 then .finite false m else .finite neg m
  | .inf neg => .inf neg
  | .nan => .nan

@[simp] theorem normZero_isFinite (x : Binary64) : x.normZero.isFinite = x.isFinite := by
  cases x with
  | finite neg m =>
      by_cases h : m.val = 0
      · simp [normZero, h, isFinite]
      · simp [normZero, h, isFinite]
  | inf neg => rfl
  | nan => rfl

@[simp] theorem normZero_normZero (x : Binary64) : x.normZero.normZero = x.normZero := by
  cases x with
  | finite neg m =>
      by_cases h : m.val = 0
      · simp [normZero, h]
      · simp [normZero, h]
  | inf neg => rfl
  | nan => rfl

end Binary64
