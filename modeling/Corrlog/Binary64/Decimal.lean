import Corrlog.Binary64.Format
import Mathlib.Data.List.DropRight

/-!
# Decimals and binary64

The unit of the grid is `2 ^ -p`, with `p = 1074` for binary64.  The rounding
below keeps `p` a parameter, so that no proof meets the power itself.

`decIndex p d q` is the index that `d * 10 ^ q` rounds to.  Reading a decimal
literal (`ofDecimal`) and converting an integer (`ofInt`) are this one rounding.

`shortest p i` is the shortest decimal that reads back as the magnitude `i`, the
nearest one among equally short, and the even one of two equally near.  With `k`
digits only two decimals can do: the greatest one that is at most the magnitude
and its successor.  The search tries `k = 1, 2, ..`.  The exact decimal
expansion has finitely many digits and closes the search.

`shortestDigits` gives the digits without trailing zeros and the position `n` of
the point, so that the value is `0.d₁d₂.. * 10 ^ n`.  What later proofs use is
that they read back (`shortestDigits_readBack`) and their shape
(`shortestDigits_shape`).
-/

namespace Binary64

/-! ## Reading a decimal -/

/-- The index nearest to `d * 10 ^ q`. -/
def decIndex (p d : ℕ) (q : ℤ) : ℕ :=
  roundRatio (d * 10 ^ q.toNat * 2 ^ p) (10 ^ (-q).toNat)

/-- `±d * 10 ^ q`, rounded to nearest even. -/
def ofDecimal (neg : Bool) (d : ℕ) (q : ℤ) : Binary64 := ofIndex neg (decIndex 1074 d q)

/-- An integer, rounded to nearest even. -/
def ofInt (n : ℤ) : Binary64 := ofDecimal (decide (n < 0)) n.natAbs 0

/-- An integer of `2 ^ k` or more has an index in the block of `2 ^ k`. -/
theorem le_decIndex {p k d : ℕ} (hk : 52 ≤ k) (hd : 2 ^ k ≤ d) :
    (p + (k - 52) + 1) * 2 ^ 52 ≤ decIndex p d 0 := by
  have hgrid : grid ((p + (k - 52)) * 2 ^ 52 + 2 ^ 52) = 2 ^ k * 2 ^ p := by
    rw [grid_block (Or.inl (le_refl _)) (by omega), ← pow_add, ← pow_add]
    congr 1
    omega
  have hpt : roundRatio (2 ^ k * 2 ^ p) 1 = (p + (k - 52)) * 2 ^ 52 + 2 ^ 52 :=
    roundRatio_of_grid Nat.one_pos (by rw [hgrid, Nat.mul_one])
  have hmono : roundRatio (2 ^ k * 2 ^ p) 1 ≤ decIndex p d 0 := by
    refine roundRatio_mono Nat.one_pos (by positivity) ?_
    simp only [Int.toNat_zero, neg_zero, pow_zero, Nat.mul_one]
    exact Nat.mul_le_mul_right _ hd
  calc (p + (k - 52) + 1) * 2 ^ 52 = (p + (k - 52)) * 2 ^ 52 + 2 ^ 52 := by ring
    _ = roundRatio (2 ^ k * 2 ^ p) 1 := hpt.symm
    _ ≤ decIndex p d 0 := hmono

/-- An integer within the range is less than `2 ^ 1024`. -/
theorem natAbs_lt_of_isFinite {n : ℤ} (h : (ofInt n).isFinite = true) : n.natAbs < 2 ^ 1024 := by
  by_contra hge
  have hle := le_decIndex (p := 1074) (k := 1024) (by omega) (Nat.le_of_not_lt hge)
  rw [ofInt, ofDecimal, ofIndex, dif_neg (by omega)] at h
  cases h

/-! ## The shortest decimal -/

/-- The number of decimal digits. -/
def decLen (n : ℕ) : ℕ := (Nat.toDigits 10 n).length

/-- The position `n` of the point: the magnitude is at least `10 ^ (n - 1)` and
less than `10 ^ n`. -/
def pointPos (p i : ℕ) : ℤ :=
  if 2 ^ p ≤ grid i then decLen (grid i / 2 ^ p) else 1 - decLen ((2 ^ p - 1) / grid i)

/-- The greatest `d` with `d * 10 ^ q` at most the magnitude. -/
def decFloor (p i : ℕ) (q : ℤ) : ℕ := grid i * 10 ^ (-q).toNat / (2 ^ p * 10 ^ q.toNat)

/-- Of `d` and `d + 1` the one whose decimal is nearer to the magnitude, the
even one if both are as near. -/
def nearer (p i d : ℕ) (q : ℤ) : ℕ :=
  let v := 2 * (grid i * 10 ^ (-q).toNat)
  let mid := (2 * d + 1) * (2 ^ p * 10 ^ q.toNat)
  if v < mid then d else if mid < v then d + 1 else if d % 2 = 0 then d else d + 1

/-- The decimal with `k` digits that reads back as the magnitude, if there is one. -/
def decimalAt (p i k : ℕ) : Option (ℕ × ℤ) :=
  let q := pointPos p i - k
  let d := decFloor p i q
  if decIndex p d q = i then
    if decIndex p (d + 1) q = i then some (nearer p i d q, q) else some (d, q)
  else if decIndex p (d + 1) q = i then some (d + 1, q)
  else none

/-- Search from `k` digits on.  The last resort is the exact expansion. -/
def shortestFrom (p i : ℕ) : ℕ → ℕ → ℕ × ℤ
  | 0, _ => (grid i * 5 ^ p, -(p : ℤ))
  | fuel + 1, k => (decimalAt p i k).getD (shortestFrom p i fuel (k + 1))

/-- The shortest decimal that reads back as the magnitude.  No binary64
magnitude has more than `1400` digits. -/
def shortest (p i : ℕ) : ℕ × ℤ := shortestFrom p i 1400 1

/-- The digits of the shortest decimal without trailing zeros, and the position
of the point. -/
def shortestDigits (p i : ℕ) : List Char × ℤ :=
  let ds := Nat.toDigits 10 (shortest p i).1
  (ds.rdropWhile (· == '0'), ds.length + (shortest p i).2)

section

variable {p : ℕ}

@[simp] theorem decIndex_zero (q : ℤ) : decIndex p 0 q = 0 := by
  simp [decIndex]

/-- Zeros moved from the digits to the exponent change nothing. -/
theorem decIndex_mul_pow (d z : ℕ) (q : ℤ) :
    decIndex p (d * 10 ^ z) q = decIndex p d (q + z) := by
  refine roundRatio_congr (by positivity) (by positivity) ?_
  have he : z + q.toNat + (-(q + z)).toNat = (q + z).toNat + (-q).toNat := by omega
  calc d * 10 ^ z * 10 ^ q.toNat * 2 ^ p * 10 ^ (-(q + z)).toNat
      = d * 2 ^ p * 10 ^ (z + q.toNat + (-(q + z)).toNat) := by rw [pow_add, pow_add]; ring
    _ = d * 10 ^ (q + z).toNat * 2 ^ p * 10 ^ (-q).toNat := by rw [he, pow_add]; ring

theorem nearer_eq (i d : ℕ) (q : ℤ) : nearer p i d q = d ∨ nearer p i d q = d + 1 := by
  unfold nearer
  dsimp only
  split
  · exact Or.inl rfl
  · split
    · exact Or.inr rfl
    · split
      · exact Or.inl rfl
      · exact Or.inr rfl

theorem decimalAt_readBack {i k : ℕ} {d : ℕ × ℤ} (h : decimalAt p i k = some d) :
    decIndex p d.1 d.2 = i := by
  unfold decimalAt at h
  dsimp only at h
  split at h
  next hlo =>
    split at h
    next hhi =>
      cases h
      rcases nearer_eq (p := p) i (decFloor p i (pointPos p i - k)) (pointPos p i - k) with he | he
      · rw [he]; exact hlo
      · rw [he]; exact hhi
    next => cases h; exact hlo
  next =>
    split at h
    next hhi => cases h; exact hhi
    next => cases h

/-- The exact expansion reads back. -/
theorem decIndex_exact (i : ℕ) : decIndex p (grid i * 5 ^ p) (-(p : ℤ)) = i := by
  refine roundRatio_of_grid (by positivity) ?_
  have h10 : (10 : ℕ) ^ p = 5 ^ p * 2 ^ p := by rw [← Nat.mul_pow]
  have hq : (-(-(p : ℤ))).toNat = p := by omega
  have hz : (-(p : ℤ)).toNat = 0 := by omega
  rw [hq, hz, h10, pow_zero, Nat.mul_one, Nat.mul_assoc]

theorem shortestFrom_readBack (i : ℕ) :
    ∀ fuel k, decIndex p (shortestFrom p i fuel k).1 (shortestFrom p i fuel k).2 = i
  | 0, _ => decIndex_exact i
  | fuel + 1, k => by
      rw [shortestFrom]
      cases h : decimalAt p i k with
      | some d => exact decimalAt_readBack (d := d) h
      | none => exact shortestFrom_readBack i fuel (k + 1)

theorem shortest_readBack (i : ℕ) : decIndex p (shortest p i).1 (shortest p i).2 = i :=
  shortestFrom_readBack i 1400 1

end

/-! ## Its digits -/

/-- Decimal digits that start and end with a nonzero one. -/
structure IsDecimal (ds : List Char) : Prop where
  digits : ∀ c ∈ ds, c.isDigit
  ne_nil : ds ≠ []
  head_ne : ds.head ne_nil ≠ '0'
  last_ne : ds.getLast ne_nil ≠ '0'

/-- The decimal spelling of a positive number does not start with a zero. -/
theorem head_toDigits_ne {n : ℕ} (hn : 0 < n) :
    (Nat.toDigits 10 n).head Nat.toDigits_ne_nil ≠ '0' := by
  induction n using Nat.base_induction 10 (by decide) with
  | single m hm =>
      simp only [Nat.toDigits_of_lt_base hm, List.head_cons]
      intro h
      have := congrArg Char.toNat h
      rw [Nat.toNat_digitChar_of_lt_ten hm] at this
      simp at this
      omega
  | digit m k hk hm ih =>
      simp only [← Nat.toDigits_append_toDigits (by decide : 1 < 10) hm hk]
      rw [List.head_append_of_ne_nil Nat.toDigits_ne_nil]
      exact ih hm

/-- What is dropped from the right are zeros. -/
theorem rdropWhile_append_zeros (ds : List Char) :
    ∃ z, ds = ds.rdropWhile (· == '0') ++ List.replicate z '0' := by
  induction ds using List.reverseRecOn with
  | nil => exact ⟨0, rfl⟩
  | append_singleton ds c ih =>
      by_cases hc : c = '0'
      · obtain ⟨z, hz⟩ := ih
        refine ⟨z + 1, ?_⟩
        rw [List.rdropWhile_concat_pos _ _ _ (by simp [hc]), List.replicate_succ',
          ← List.append_assoc, ← hz, hc]
      · refine ⟨0, ?_⟩
        rw [List.rdropWhile_concat_neg _ _ _ (by simp [hc]), List.replicate_zero, List.append_nil]

section

variable {p : ℕ}

theorem shortest_pos {i : ℕ} (hi : 0 < i) : 0 < (shortest p i).1 := by
  rcases Nat.eq_zero_or_pos (shortest p i).1 with h | h
  · have hr := shortest_readBack (p := p) i
    rw [h, decIndex_zero] at hr
    omega
  · exact h

/-- The digits read back as the magnitude. -/
theorem shortestDigits_readBack (i : ℕ) :
    decIndex p (Nat.ofDigitChars 10 (shortestDigits p i).1 0)
      ((shortestDigits p i).2 - (shortestDigits p i).1.length) = i := by
  have hr := shortest_readBack (p := p) i
  unfold shortestDigits
  generalize shortest p i = s at hr ⊢
  obtain ⟨z, hz⟩ := rdropWhile_append_zeros (Nat.toDigits 10 s.1)
  obtain ⟨ds, hds⟩ : ∃ ds, (Nat.toDigits 10 s.1).rdropWhile (· == '0') = ds := ⟨_, rfl⟩
  rw [hds] at hz
  have hval : s.1 = Nat.ofDigitChars 10 ds 0 * 10 ^ z := by
    rw [← Nat.ofDigitChars_ten_toDigits (n := s.1), hz, Nat.ofDigitChars_append,
      Nat.ofDigitChars_replicate_zero, Nat.mul_comm]
  have hlen : (Nat.toDigits 10 s.1).length = ds.length + z := by
    rw [hz, List.length_append, List.length_replicate]
  rw [hval, decIndex_mul_pow] at hr
  dsimp only
  rw [hds, hlen, show ((ds.length + z : ℕ) : ℤ) + s.2 - ds.length = s.2 + z by omega]
  exact hr

/-- Dropping the trailing zeros of a positive number leaves a decimal. -/
theorem isDecimal_rdropWhile {n : ℕ} (hn : 0 < n) :
    IsDecimal ((Nat.toDigits 10 n).rdropWhile (· == '0')) := by
  obtain ⟨z, hz⟩ := rdropWhile_append_zeros (Nat.toDigits 10 n)
  have hne : (Nat.toDigits 10 n).rdropWhile (· == '0') ≠ [] := by
    intro h0
    have hval := Nat.ofDigitChars_ten_toDigits (n := n)
    rw [hz, h0, List.nil_append, Nat.ofDigitChars_replicate_zero, Nat.mul_zero] at hval
    omega
  refine ⟨fun c hc => ?_, hne, ?_, ?_⟩
  · refine Nat.isDigit_of_mem_toDigits (by decide) (by decide) (n := n) (b := 10) ?_
    rw [hz]
    exact List.mem_append_left _ hc
  · have hhead := head_toDigits_ne hn
    simp only [List.head_eq_getElem] at hhead ⊢
    rwa [List.getElem_of_eq hz, List.getElem_append_left (List.length_pos_iff.mpr hne)] at hhead
  · have := List.rdropWhile_last_not (p := (· == '0')) (l := Nat.toDigits 10 n) hne
    simpa using this

theorem shortestDigits_shape {i : ℕ} (hi : 0 < i) : IsDecimal (shortestDigits p i).1 :=
  isDecimal_rdropWhile (shortest_pos hi)

end

end Binary64
