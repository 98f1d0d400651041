import Corrlog.Binary64.Decimal

/-!
# Number literals and `repr`

A number literal has a sign, an integer part, a fraction and an exponent.
`NumLit.text` spells it and `NumLit.double` is the binary64 number it denotes.
`repr` of a float (`floatRepr`) lays the shortest digits out in one of four
ways.  Each of them is a lemma about any literal of that form, and all denote
the number (`reprLit_spec`).
-/

namespace Python

open Binary64 (ofDecimal decIndex decIndex_mul_pow IsDecimal shortestDigits ofIndex)

/-! ## Literals -/

/-- The parts of a number literal.  The exponent has a sign and digits. -/
structure NumLit where
  neg : Bool
  ip : List Char
  fp : List Char
  ex : Option (Bool × List Char)
deriving DecidableEq

/-- `n` zeros, none if `n` is negative. -/
def zeros (n : ℤ) : List Char := List.replicate n.toNat '0'

namespace NumLit

/-- A minus for a negative number. -/
def signText (neg : Bool) : List Char := if neg then ['-'] else []

/-- The fraction, with its point. -/
def fracText (fp : List Char) : List Char := if fp = [] then [] else '.' :: fp

/-- The exponent, with its sign. -/
def expText : Option (Bool × List Char) → List Char
  | none => []
  | some (neg, ds) => 'e' :: (if neg then '-' else '+') :: ds

/-- The literal without its sign. -/
def body (l : NumLit) : List Char := l.ip ++ (fracText l.fp ++ expText l.ex)

/-- The literal as text. -/
def text (l : NumLit) : List Char := signText l.neg ++ l.body

/-- The exponent. -/
def exponent : Option (Bool × List Char) → ℤ
  | none => 0
  | some (true, ds) => -(Nat.ofDigitChars 10 ds 0 : ℤ)
  | some (false, ds) => Nat.ofDigitChars 10 ds 0

/-- All digits, read as one number. -/
def mantissa (l : NumLit) : ℕ := Nat.ofDigitChars 10 (l.ip ++ l.fp) 0

/-- The power of ten that scales the mantissa. -/
def scale (l : NumLit) : ℤ := exponent l.ex - l.fp.length

/-- The binary64 number nearest to the literal. -/
def double (l : NumLit) : Binary64 := ofDecimal l.neg l.mantissa l.scale

/-- What the grammar asks of the parts: digits, no leading zero in the integer
part, and digits in an exponent. -/
structure Valid (l : NumLit) : Prop where
  ip_digits : ∀ c ∈ l.ip, c.isDigit
  ip_shape : l.ip = ['0'] ∨ ∃ c cs, l.ip = c :: cs ∧ c ≠ '0'
  fp_digits : ∀ c ∈ l.fp, c.isDigit
  ex_shape : ∀ neg ds, l.ex = some (neg, ds) → ds ≠ [] ∧ ∀ c ∈ ds, c.isDigit

end NumLit

/-! ## `repr` -/

/-- The literal of an integer. -/
def intLit (n : ℤ) : NumLit := ⟨decide (n < 0), Nat.toDigits 10 n.natAbs, [], none⟩

/-- `str(n)`. -/
def intRepr (n : ℤ) : List Char := (intLit n).text

/-- An exponent in at least two digits. -/
def twoDigits (n : ℕ) : List Char := if n < 10 then '0' :: Nat.toDigits 10 n else Nat.toDigits 10 n

/-- How `repr` lays out the digits `ds` of `0.ds * 10 ^ n`: with an exponent of
at least two digits if `n - 1 < -4` or `16 ≤ n - 1`, else with a digit on both
sides of the point. -/
def reprLit (neg : Bool) (ds : List Char) (n : ℤ) : NumLit :=
  if n - 1 < -4 ∨ 16 ≤ n - 1 then
    ⟨neg, ds.take 1, ds.drop 1, some (decide (n - 1 < 0), twoDigits (n - 1).natAbs)⟩
  else if n ≤ 0 then ⟨neg, ['0'], zeros (-n) ++ ds, none⟩
  else if ds.length ≤ n then ⟨neg, ds ++ zeros (n - ds.length), ['0'], none⟩
  else ⟨neg, ds.take n.toNat, ds.drop n.toNat, none⟩

/-- The literal `repr` writes for a finite number. -/
def finiteLit (neg : Bool) (m : ℕ) : NumLit :=
  if m = 0 then ⟨neg, ['0'], ['0'], none⟩
  else reprLit neg (shortestDigits 1074 m).1 (shortestDigits 1074 m).2

/-- `repr(x)`. -/
def floatRepr : Binary64 → List Char
  | .finite neg m => (finiteLit neg m.val).text
  | .inf neg => NumLit.signText neg ++ ['i', 'n', 'f']
  | .nan => ['n', 'a', 'n']

/-! ## What the layouts denote -/

theorem isDigit_zeros (n : ℤ) : ∀ c ∈ zeros n, c.isDigit := by
  intro c hc
  rw [List.eq_of_mem_replicate hc]
  rfl

@[simp] theorem length_zeros (n : ℤ) : (zeros n).length = n.toNat := List.length_replicate

theorem ofDigitChars_zeros_append (n : ℤ) (ds : List Char) :
    Nat.ofDigitChars 10 (zeros n ++ ds) 0 = Nat.ofDigitChars 10 ds 0 := by
  rw [zeros, Nat.ofDigitChars_append, Nat.ofDigitChars_replicate_zero, Nat.mul_zero]

theorem ofDigitChars_append_zeros (n : ℤ) (ds : List Char) :
    Nat.ofDigitChars 10 (ds ++ zeros n) 0 = Nat.ofDigitChars 10 ds 0 * 10 ^ n.toNat := by
  rw [zeros, Nat.ofDigitChars_append, Nat.ofDigitChars_replicate_zero, Nat.mul_comm]

theorem isDigit_toDigits {n : ℕ} : ∀ c ∈ Nat.toDigits 10 n, c.isDigit :=
  fun _ hc => Nat.isDigit_of_mem_toDigits (by decide) (by decide) hc

theorem isDigit_twoDigits (n : ℕ) : ∀ c ∈ twoDigits n, c.isDigit := by
  intro c hc
  unfold twoDigits at hc
  split at hc
  · rcases List.mem_cons.mp hc with rfl | hc
    · rfl
    · exact isDigit_toDigits c hc
  · exact isDigit_toDigits c hc

theorem twoDigits_ne_nil (n : ℕ) : twoDigits n ≠ [] := by
  unfold twoDigits
  split
  · exact List.cons_ne_nil _ _
  · exact Nat.toDigits_ne_nil

@[simp] theorem ofDigitChars_twoDigits (n : ℕ) : Nat.ofDigitChars 10 (twoDigits n) 0 = n := by
  unfold twoDigits
  split
  · rw [Nat.ofDigitChars_cons]
    simp
  · exact Nat.ofDigitChars_ten_toDigits

/-- An exponent with the sign and the digits of `n` is `n`. -/
theorem exponent_some {n : ℤ} {ds : List Char} (h : Nat.ofDigitChars 10 ds 0 = n.natAbs) :
    NumLit.exponent (some (decide (n < 0), ds)) = n := by
  by_cases hn : n < 0
  · simp only [hn, decide_true, NumLit.exponent, h]
    omega
  · simp only [hn, decide_false, NumLit.exponent, h]
    omega

/-- A literal denotes `0.ds * 10 ^ n` if its mantissa is `ds` with zeros that the
scale takes back. -/
theorem double_eq_of {l : NumLit} {ds : List Char} {n : ℤ} (z : ℕ)
    (hm : l.mantissa = Nat.ofDigitChars 10 ds 0 * 10 ^ z) (hs : l.scale + z = n - ds.length) :
    l.double = ofDecimal l.neg (Nat.ofDigitChars 10 ds 0) (n - ds.length) := by
  rw [NumLit.double, ofDecimal, ofDecimal, hm, decIndex_mul_pow, hs]

@[simp] theorem reprLit_neg (neg : Bool) (ds : List Char) (n : ℤ) :
    (reprLit neg ds n).neg = neg := by
  unfold reprLit
  split
  · rfl
  · split
    · rfl
    · split <;> rfl

section

variable {ds : List Char} (hds : IsDecimal ds) (neg : Bool) (n : ℤ)

include hds

theorem length_pos_of_isDecimal : 0 < ds.length := List.length_pos_iff.mpr hds.ne_nil

/-- The first digits are an integer part. -/
theorem take_shape {k : ℕ} (hk : 0 < k) (rest : List Char) :
    ∃ c cs, ds.take k ++ rest = c :: cs ∧ c ≠ '0' := by
  obtain ⟨c, cs, rfl⟩ := List.exists_cons_of_ne_nil hds.ne_nil
  obtain ⟨j, rfl⟩ : ∃ j, k = j + 1 := ⟨k - 1, by omega⟩
  exact ⟨c, cs.take j ++ rest, by simp, hds.head_ne⟩

/-- One digit before the point, and an exponent `e`. -/
theorem exponent_layout {e : List Char} (he : Nat.ofDigitChars 10 e 0 = (n - 1).natAbs)
    (hne : e ≠ []) (hd : ∀ c ∈ e, c.isDigit) {l : NumLit}
    (hl : l = ⟨neg, ds.take 1, ds.drop 1, some (decide (n - 1 < 0), e)⟩) :
    l.Valid ∧ l.double = ofDecimal neg (Nat.ofDigitChars 10 ds 0) (n - ds.length) := by
  have hpos := length_pos_of_isDecimal hds
  subst hl
  refine ⟨⟨fun c hc => hds.digits c (List.mem_of_mem_take hc), Or.inr ?_,
    fun c hc => hds.digits c (List.mem_of_mem_drop hc), ?_⟩, double_eq_of 0 ?_ ?_⟩
  · simpa using take_shape hds Nat.one_pos []
  · rintro neg' ds' h
    cases h
    exact ⟨hne, hd⟩
  · rw [NumLit.mantissa, List.take_append_drop, pow_zero, Nat.mul_one]
  · rw [NumLit.scale, exponent_some he, List.length_drop]
    omega

/-- All digits after the point. -/
theorem fraction_layout (hn : n ≤ 0) {l : NumLit} (hl : l = ⟨neg, ['0'], zeros (-n) ++ ds, none⟩) :
    l.Valid ∧ l.double = ofDecimal neg (Nat.ofDigitChars 10 ds 0) (n - ds.length) := by
  subst hl
  refine ⟨⟨by simp [Char.isDigit], Or.inl rfl, fun c hc => ?_, by simp⟩, double_eq_of 0 ?_ ?_⟩
  · exact (List.mem_append.mp hc).elim (isDigit_zeros _ c) (hds.digits c)
  · rw [NumLit.mantissa, pow_zero, Nat.mul_one]
    exact (Nat.ofDigitChars_cons).trans (ofDigitChars_zeros_append _ _)
  · simp only [NumLit.scale, NumLit.exponent, List.length_append, length_zeros]
    omega

/-- The point among the digits. -/
theorem point_layout (h0 : 0 < n) (hn : n ≤ ds.length) {l : NumLit}
    (hl : l = ⟨neg, ds.take n.toNat, ds.drop n.toNat, none⟩) :
    l.Valid ∧ l.double = ofDecimal neg (Nat.ofDigitChars 10 ds 0) (n - ds.length) := by
  subst hl
  refine ⟨⟨fun c hc => hds.digits c (List.mem_of_mem_take hc), Or.inr ?_,
    fun c hc => hds.digits c (List.mem_of_mem_drop hc), by simp⟩, double_eq_of 0 ?_ ?_⟩
  · simpa using take_shape hds (k := n.toNat) (by omega) []
  · rw [NumLit.mantissa, List.take_append_drop, pow_zero, Nat.mul_one]
  · simp only [NumLit.scale, NumLit.exponent, List.length_drop]
    omega

/-- Zeros up to the point, and a fraction of `z` zeros. -/
theorem integer_layout (hn : ds.length ≤ n) (z : ℕ) {l : NumLit}
    (hl : l = ⟨neg, ds ++ zeros (n - ds.length), List.replicate z '0', none⟩) :
    l.Valid ∧ l.double = ofDecimal neg (Nat.ofDigitChars 10 ds 0) (n - ds.length) := by
  subst hl
  refine ⟨⟨fun c hc => ?_, Or.inr ?_, fun c hc => ?_, by simp⟩,
    double_eq_of ((n - ds.length).toNat + z) ?_ ?_⟩
  · exact (List.mem_append.mp hc).elim (hds.digits c) (isDigit_zeros _ c)
  · have := take_shape hds (length_pos_of_isDecimal hds) (zeros (n - ds.length))
    rwa [List.take_length] at this
  · rw [List.eq_of_mem_replicate hc]
    rfl
  · rw [NumLit.mantissa, Nat.ofDigitChars_append, ofDigitChars_append_zeros,
      Nat.ofDigitChars_replicate_zero, pow_add]
    ring
  · simp only [NumLit.scale, NumLit.exponent, List.length_replicate]
    omega

/-- Every layout of `repr` denotes the number. -/
theorem reprLit_spec : (reprLit neg ds n).Valid ∧
    (reprLit neg ds n).double = ofDecimal neg (Nat.ofDigitChars 10 ds 0) (n - ds.length) := by
  unfold reprLit
  split
  next =>
    exact exponent_layout hds neg n (ofDigitChars_twoDigits _) (twoDigits_ne_nil _)
      (isDigit_twoDigits _) rfl
  next =>
    split
    next h => exact fraction_layout hds neg n h rfl
    next h =>
      split
      next h' => exact integer_layout hds neg n h' 1 rfl
      next h' => exact point_layout hds neg n (by omega) (by omega) rfl

/-- `repr` always writes a point or an exponent. -/
theorem reprLit_float : (reprLit neg ds n).fp ≠ [] ∨ (reprLit neg ds n).ex ≠ none := by
  unfold reprLit
  split
  next => exact Or.inr (by simp)
  next =>
    left
    split
    next => exact List.append_ne_nil_of_right_ne_nil _ hds.ne_nil
    next =>
      split
      next => exact List.cons_ne_nil _ _
      next => simp only [ne_eq, List.drop_eq_nil_iff]; omega

end

theorem intLit_valid (n : ℤ) : (intLit n).Valid := by
  refine ⟨isDigit_toDigits, ?_, fun c hc => absurd hc List.not_mem_nil, fun _ _ h => nomatch h⟩
  rcases Nat.eq_zero_or_pos n.natAbs with h | h
  · exact Or.inl (by rw [intLit, h]; rfl)
  · refine Or.inr ⟨_, _, (List.cons_head_tail Nat.toDigits_ne_nil).symm, ?_⟩
    exact Binary64.head_toDigits_ne h

/-- The digits of a positive magnitude denote it. -/
theorem ofDecimal_shortestDigits (neg : Bool) (m : Fin (2047 * 2 ^ 52)) :
    ofDecimal neg (Nat.ofDigitChars 10 (shortestDigits 1074 m.val).1 0)
      ((shortestDigits 1074 m.val).2 - (shortestDigits 1074 m.val).1.length) = .finite neg m := by
  rw [ofDecimal, Binary64.shortestDigits_readBack, Binary64.ofIndex_val]

/-- `repr` of a finite number is a literal with a point or an exponent that
denotes the number, its sign included. -/
theorem finiteLit_spec (neg : Bool) (m : Fin (2047 * 2 ^ 52)) :
    (finiteLit neg m.val).Valid ∧ (finiteLit neg m.val).double = .finite neg m ∧
      ((finiteLit neg m.val).fp ≠ [] ∨ (finiteLit neg m.val).ex ≠ none) := by
  unfold finiteLit
  split
  next h =>
    refine ⟨⟨by simp [Char.isDigit], Or.inl rfl, by simp [Char.isDigit], by simp⟩, ?_,
      Or.inl (List.cons_ne_nil _ _)⟩
    have hm : NumLit.mantissa ⟨neg, ['0'], ['0'], none⟩ = 0 := rfl
    rw [NumLit.double, ofDecimal, hm, Binary64.decIndex_zero, ← h, Binary64.ofIndex_val]
  next h =>
    have hds := Binary64.shortestDigits_shape (p := 1074) (Nat.pos_of_ne_zero h)
    obtain ⟨hv, hd⟩ := reprLit_spec hds neg (shortestDigits 1074 m.val).2
    refine ⟨hv, ?_, reprLit_float hds _ _⟩
    rw [hd, ofDecimal_shortestDigits]

end Python
