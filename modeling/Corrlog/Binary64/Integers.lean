import Corrlog.Binary64.Decimal
import Mathlib.Data.Nat.Factorization.Basic

/-!
# Integers as decimals

The shortest decimal of a magnitude need not be its exact value, even if that is
an integer.  Up to `2 ^ 53` it is.

Every integer up to `2 ^ 53` is on the grid (`grid_decIndex`), so an integer
decimal that reads back as one below `2 ^ 53` has its value
(`eq_of_decIndex_eq`).  Write the integer as `m * 10 ^ z`, where `10` does not
divide `m`.  A decimal with fewer digits than `m` has an exponent greater than
`z`: it is an integer, and a multiple of a greater power of ten, so it does not
read back (`decimalAt_eq_none`).  With as many digits as `m` the search meets
the integer itself (`decimalAt_eq_some`) and stops there.
-/

namespace Binary64

variable {p : ℕ}

/-! ## Integers on the grid -/

/-- Up to `2 ^ 53` an integer is a magnitude. -/
theorem grid_decIndex (hp : 52 ≤ p) {d : ℕ} (hd : d ≤ 2 ^ 53) :
    grid (decIndex p d 0) = d * 2 ^ p := by
  rcases Nat.eq_zero_or_pos d with h0 | hpos
  · rw [h0, decIndex_zero, grid_zero, Nat.zero_mul]
  obtain ⟨l, hl⟩ : ∃ l, Nat.log2 d = l := ⟨_, rfl⟩
  have hlo : 2 ^ l ≤ d := hl ▸ Nat.log2_self_le (by omega)
  have hhi : d < 2 ^ (l + 1) := hl ▸ Nat.lt_log2_self
  have hl53 : l ≤ 53 := by
    have hpow : 2 ^ l ≤ 2 ^ 53 := le_trans hlo hd
    exact (Nat.pow_le_pow_iff_right (by omega)).mp hpow
  -- the significand of `d`, with 53 bits
  have hm : 2 ^ 52 ≤ d * 2 ^ (52 - l) := by
    calc 2 ^ 52 ≤ 2 ^ (l + (52 - l)) := Nat.pow_le_pow_right (by omega) (by omega)
      _ = 2 ^ l * 2 ^ (52 - l) := pow_add 2 l (52 - l)
      _ ≤ d * 2 ^ (52 - l) := Nat.mul_le_mul_right _ hlo
  have hm' : d * 2 ^ (52 - l) ≤ 2 ^ 53 := by
    rcases Nat.lt_or_ge l 53 with h | h
    · calc d * 2 ^ (52 - l) ≤ 2 ^ (l + 1) * 2 ^ (52 - l) := Nat.mul_le_mul_right _ hhi.le
        _ = 2 ^ 53 := by rw [← pow_add]; congr 1; omega
    · rw [show 52 - l = 0 by omega, pow_zero, Nat.mul_one]
      exact hd
  have hgrid : grid ((p - (52 - l)) * 2 ^ 52 + d * 2 ^ (52 - l)) = d * 2 ^ p := by
    rw [grid_block (Or.inl hm) hm', Nat.mul_assoc, ← pow_add]
    congr 2
    omega
  have hidx : decIndex p d 0 = (p - (52 - l)) * 2 ^ 52 + d * 2 ^ (52 - l) := by
    refine roundRatio_of_grid (by positivity) ?_
    rw [hgrid]
    simp
  rw [hidx, hgrid]

theorem decIndex_lt (hp : 52 ≤ p) {n : ℕ} (hn : n < 2 ^ 53) :
    decIndex p n 0 < (p + 2) * 2 ^ 52 := by
  by_contra hge
  have hblock : grid ((p + 2) * 2 ^ 52) = 2 ^ 53 * 2 ^ p := by
    rw [show (p + 2) * 2 ^ 52 = (p + 1) * 2 ^ 52 + 2 ^ 52 by ring,
      grid_block (Or.inl (le_refl _)) (by omega)]
    ring
  have hmono := grid_strictMono.monotone (Nat.le_of_not_lt hge)
  rw [hblock, grid_decIndex hp hn.le] at hmono
  have := Nat.le_of_mul_le_mul_right hmono (Nat.two_pow_pos p)
  omega

/-- Below `2 ^ 53` no other integer rounds to the same magnitude. -/
theorem eq_of_decIndex_eq (hp : 52 ≤ p) {d n : ℕ} (hn : n < 2 ^ 53)
    (h : decIndex p d 0 = decIndex p n 0) : d = n := by
  have hpos : 0 < 2 ^ p := Nat.two_pow_pos p
  have hgn := grid_decIndex hp hn.le
  rcases Nat.lt_or_ge (2 ^ 53) d with hd | hd
  · -- then `2 ^ 53` would round to at most the index of `n`
    have hle : decIndex p (2 ^ 53) 0 ≤ decIndex p d 0 := by
      refine roundRatio_mono (by positivity) (by positivity) ?_
      simp only [Int.toNat_zero, neg_zero, pow_zero, Nat.mul_one]
      exact Nat.mul_le_mul_right _ hd.le
    rw [h] at hle
    have hmono := grid_strictMono.monotone hle
    rw [hgn, grid_decIndex hp (le_refl _)] at hmono
    have := Nat.le_of_mul_le_mul_right hmono hpos
    omega
  · have hgd := grid_decIndex hp hd
    rw [h, hgn] at hgd
    exact (Nat.eq_of_mul_eq_mul_right hpos hgd).symm

/-- An integer decimal that reads back as an integer below `2 ^ 53` is that integer. -/
theorem mul_pow_eq_of_decIndex (hp : 52 ≤ p) {d e n : ℕ} (hn : n < 2 ^ 53)
    (h : decIndex p d e = decIndex p n 0) : d * 10 ^ e = n := by
  refine eq_of_decIndex_eq hp hn ?_
  rw [decIndex_mul_pow, Int.zero_add]
  exact h

theorem pointPos_decIndex (hp : 52 ≤ p) {n : ℕ} (h0 : 0 < n) (hn : n < 2 ^ 53) :
    pointPos p (decIndex p n 0) = decLen n := by
  have hpos : 0 < 2 ^ p := Nat.two_pow_pos p
  rw [pointPos, grid_decIndex hp hn.le, if_pos (Nat.le_mul_of_pos_left _ h0),
    Nat.mul_div_cancel _ hpos]

/-! ## Digits -/

/-- A power of ten adds zeros to the digits. -/
theorem toDigits_mul_pow {m : ℕ} (hm : 0 < m) (z : ℕ) :
    Nat.toDigits 10 (m * 10 ^ z) = Nat.toDigits 10 m ++ List.replicate z '0' := by
  induction z with
  | zero => simp
  | succ z ih =>
      have hpos : 0 < m * 10 ^ z := by positivity
      have happ := Nat.toDigits_append_toDigits (b := 10) (d := 0) (by omega) hpos (by omega)
      rw [Nat.toDigits_zero, ih] at happ
      rw [show m * 10 ^ (z + 1) = 10 * (m * 10 ^ z) + 0 by rw [pow_succ]; ring, ← happ,
        List.replicate_succ', List.append_assoc]

theorem decLen_mul_pow {m : ℕ} (hm : 0 < m) (z : ℕ) : decLen (m * 10 ^ z) = decLen m + z := by
  rw [decLen, toDigits_mul_pow hm, List.length_append, List.length_replicate, decLen]

/-! ## The search -/

section

variable {m z : ℕ} (hp : 52 ≤ p) (hm : 0 < m) (hn : m * 10 ^ z < 2 ^ 53)

include hp hm hn

/-- A decimal with fewer digits is a multiple of a greater power of ten. -/
theorem decimalAt_eq_none (h10 : ¬10 ∣ m) {k : ℕ} (hk : k < decLen m) :
    decimalAt p (decIndex p (m * 10 ^ z) 0) k = none := by
  have hpos : 0 < m * 10 ^ z := by positivity
  obtain ⟨e, he⟩ : ∃ e : ℕ, decLen m + z = k + (z + (e + 1)) := ⟨decLen m - k - 1, by omega⟩
  have hq : pointPos p (decIndex p (m * 10 ^ z) 0) - k = ((z + (e + 1) : ℕ) : ℤ) := by
    rw [pointPos_decIndex hp hpos hn, decLen_mul_pow hm, he]
    omega
  have hne (d : ℕ) : decIndex p d ((z + (e + 1) : ℕ) : ℤ) ≠ decIndex p (m * 10 ^ z) 0 := by
    intro h
    have heq := mul_pow_eq_of_decIndex hp hn h
    have hdvd : d * 10 ^ e * 10 = m := by
      refine Nat.eq_of_mul_eq_mul_right (by positivity : 0 < 10 ^ z) ?_
      rw [← heq, pow_add, pow_succ]
      ring
    exact h10 ⟨d * 10 ^ e, by rw [← hdvd, Nat.mul_comm]⟩
  rw [decimalAt, hq, if_neg (hne _), if_neg (hne _)]

/-- With as many digits as it has, the integer itself is found. -/
theorem decimalAt_eq_some :
    decimalAt p (decIndex p (m * 10 ^ z) 0) (decLen m) = some (m, (z : ℤ)) := by
  have hpos : 0 < m * 10 ^ z := by positivity
  have hq : pointPos p (decIndex p (m * 10 ^ z) 0) - decLen m = (z : ℤ) := by
    rw [pointPos_decIndex hp hpos hn, decLen_mul_pow hm]
    omega
  have hfloor : decFloor p (decIndex p (m * 10 ^ z) 0) z = m := by
    rw [decFloor, grid_decIndex hp hn.le, show (-(z : ℤ)).toNat = 0 by omega, Int.toNat_natCast,
      pow_zero, Nat.mul_one, Nat.mul_assoc, Nat.mul_comm (10 ^ z)]
    exact Nat.mul_div_cancel m (by positivity)
  have hself : decIndex p m z = decIndex p (m * 10 ^ z) 0 := by
    rw [decIndex_mul_pow, Int.zero_add]
  have hsucc : decIndex p (m + 1) z ≠ decIndex p (m * 10 ^ z) 0 := by
    intro h
    have heq := Nat.eq_of_mul_eq_mul_right (by positivity) (mul_pow_eq_of_decIndex hp hn h)
    omega
  rw [decimalAt, hq, hfloor, if_pos hself, if_neg hsucc]

end

/-- The search passes what gives nothing. -/
theorem shortestFrom_eq {i t : ℕ} {d : ℕ × ℤ} :
    ∀ {fuel k : ℕ}, (∀ j, k ≤ j → j < k + t → decimalAt p i j = none) →
      decimalAt p i (k + t) = some d → t < fuel → shortestFrom p i fuel k = d := by
  induction t with
  | zero =>
      intro fuel k _ hsome hfuel
      obtain ⟨fuel, rfl⟩ : ∃ f, fuel = f + 1 := ⟨fuel - 1, by omega⟩
      rw [shortestFrom, show decimalAt p i k = some d from hsome, Option.getD_some]
  | succ t ih =>
      intro fuel k hnone hsome hfuel
      obtain ⟨fuel, rfl⟩ : ∃ f, fuel = f + 1 := ⟨fuel - 1, by omega⟩
      rw [shortestFrom, hnone k (le_refl _) (by omega), Option.getD_none]
      refine ih (fun j hj hlt => hnone j (by omega) (by omega)) ?_ (by omega)
      rw [← hsome]
      congr 1
      omega

/-- The shortest decimal of an integer is the integer. -/
theorem shortest_decIndex (hp : 52 ≤ p) {m z : ℕ} (hm : 0 < m) (hn : m * 10 ^ z < 2 ^ 53)
    (h10 : ¬10 ∣ m) : shortest p (decIndex p (m * 10 ^ z) 0) = (m, (z : ℤ)) := by
  have hlen : 0 < decLen m := Nat.length_toDigits_pos
  have hlen' : decLen m ≤ 16 := by
    have hle : m ≤ m * 10 ^ z := Nat.le_mul_of_pos_right m (by positivity)
    rw [decLen, Nat.length_toDigits_le_iff (by omega) (by omega)]
    omega
  refine shortestFrom_eq (t := decLen m - 1) (fun j _ hlt => ?_) ?_ (by omega)
  · exact decimalAt_eq_none hp hm hn h10 (by omega)
  · rw [Nat.add_sub_cancel' hlen]
    exact decimalAt_eq_some hp hm hn

/-- The shortest digits of an integer are its own, less the zeros at their end. -/
theorem shortestDigits_decIndex (hp : 52 ≤ p) {n : ℕ} (h0 : 0 < n) (hn : n < 2 ^ 53) :
    (∃ z, Nat.toDigits 10 n =
      (shortestDigits p (decIndex p n 0)).1 ++ List.replicate z '0') ∧
    (shortestDigits p (decIndex p n 0)).2 = (Nat.toDigits 10 n).length := by
  obtain ⟨z, m, h10, hnm⟩ := Nat.exists_eq_pow_mul_and_not_dvd h0.ne' 10 (by omega)
  rw [Nat.mul_comm] at hnm
  subst hnm
  have hm : 0 < m := Nat.pos_of_mul_pos_right h0
  rw [shortestDigits, shortest_decIndex hp hm hn h10, toDigits_mul_pow hm]
  dsimp only
  obtain ⟨y, hy⟩ := rdropWhile_append_zeros (Nat.toDigits 10 m)
  constructor
  · refine ⟨y + z, ?_⟩
    rw [List.replicate_add, ← List.append_assoc, ← hy]
  · rw [List.length_append, List.length_replicate]
    omega

/-- An integer below `2 ^ 53` as a double. -/
theorem ofInt_small {n : ℤ} (h : n.natAbs < 2 ^ 53) :
    ∃ hlt : decIndex 1074 n.natAbs 0 < 2047 * 2 ^ 52,
      ofInt n = .finite (decide (n < 0)) ⟨decIndex 1074 n.natAbs 0, hlt⟩ := by
  have hlt : decIndex 1074 n.natAbs 0 < 2047 * 2 ^ 52 := by
    have := decIndex_lt (p := 1074) (by omega) h
    omega
  exact ⟨hlt, by rw [ofInt, ofDecimal, ofIndex, dif_pos hlt]⟩

theorem isFinite_ofInt {n : ℤ} (h : n.natAbs < 2 ^ 53) : (ofInt n).isFinite = true := by
  obtain ⟨_, hn⟩ := ofInt_small h
  rw [hn]
  rfl

end Binary64
