import Corrlog.Python.Dumps

/-!
# Canonical numbers

`_jcs_double` spells a float as ECMAScript does, by rewriting the text of
`repr`: it takes the digits and the position of the point out of the text and
lays them out again.  Here the rewriting is followed step by step
(`splitRepr`, `jcsSpell`), and `esLit` is what ECMAScript's `Number::toString`
says: a function of the shortest digits.  They agree (`jcsSpell_reprLit`).

A canonical number is read back as a number of the same value
(`reads_jcsDouble`), which may be an `int` where a float was written.
-/

namespace Corrlog

open Python
open Binary64 (ofInt ofDecimal IsDecimal shortestDigits)

/-! ## The code -/

/-- `int(s)` for an optional sign and digits. -/
def intOfText : List Char → ℤ
  | [] => 0
  | c :: ds =>
      if c = '-' then -(Nat.ofDigitChars 10 ds 0 : ℤ)
      else if c = '+' then Nat.ofDigitChars 10 ds 0
      else Nat.ofDigitChars 10 (c :: ds) 0

/-- The digits and the position of the point, from the text without its sign. -/
def splitRepr (r : List Char) : List Char × ℤ :=
  if 'e' ∈ r then
    let mant := r.takeWhile (· ≠ 'e')
    let exp := intOfText ((r.dropWhile (· ≠ 'e')).drop 1)
    (mant.filter (· ≠ '.'), (if '.' ∈ mant then mant.idxOf '.' else mant.length) + exp)
  else if '.' ∈ r then
    let intPart := r.takeWhile (· ≠ '.')
    let frac := (r.dropWhile (· ≠ '.')).drop 1
    (intPart ++ frac, intPart.length)
  else (r, r.length)

/-- `s or "0"`. -/
def orZero (ds : List Char) : List Char := if ds = [] then ['0'] else ds

/-- The layout of the digits. -/
def jcsLayout (digits : List Char) (n : ℤ) : List Char :=
  let k : ℤ := digits.length
  let sign := if n - 1 ≥ 0 then '+' else '-'
  if k ≤ n ∧ n ≤ 21 then digits ++ zeros (n - k)
  else if 0 < n ∧ n ≤ 21 then digits.take n.toNat ++ '.' :: digits.drop n.toNat
  else if -6 < n ∧ n ≤ 0 then '0' :: '.' :: (zeros (-n) ++ digits)
  else if k = 1 then digits ++ 'e' :: sign :: Nat.toDigits 10 (n - 1).natAbs
  else digits.take 1 ++ '.' :: (digits.drop 1 ++ 'e' :: sign :: Nat.toDigits 10 (n - 1).natAbs)

/-- The text of `repr`, laid out again. -/
def jcsSpell (r : List Char) : List Char :=
  let neg := decide (r.head? = some '-')
  let p := splitRepr (if neg then r.drop 1 else r)
  let lead : ℤ := p.1.length - (p.1.dropWhile (· == '0')).length
  let digits := orZero (p.1.dropWhile (· == '0'))
  NumLit.signText neg ++ jcsLayout (orZero (digits.rdropWhile (· == '0'))) (p.2 - lead)

/-- `_jcs_double`. -/
def jcsDouble : Binary64 → Except PyErr (List Char)
  | .nan => raise .ValueError "Out of range IEEE 754 number cannot be serialized"
  | .inf _ => raise .ValueError "Out of range IEEE 754 number cannot be serialized"
  | .finite neg m =>
      if m.val = 0 then .ok ['0'] else .ok (jcsSpell (floatRepr (.finite neg m)))

/-- `_jcs_integer`: `float(n)` raises `OverflowError` where rounding leaves the
range. -/
def jcsInteger (n : ℤ) : Except PyErr (List Char) :=
  if (ofInt n).isFinite then jcsDouble (ofInt n)
  else raise .ValueError "integer outside the IEEE 754 double range"

/-! ## ECMAScript -/

/-- `Number::toString` of a number with the digits `ds` of `0.ds * 10 ^ n`. -/
def esLit (neg : Bool) (ds : List Char) (n : ℤ) : NumLit :=
  if ds.length ≤ n ∧ n ≤ 21 then ⟨neg, ds ++ zeros (n - ds.length), [], none⟩
  else if 0 < n ∧ n ≤ 21 then ⟨neg, ds.take n.toNat, ds.drop n.toNat, none⟩
  else if -6 < n ∧ n ≤ 0 then ⟨neg, ['0'], zeros (-n) ++ ds, none⟩
  else ⟨neg, ds.take 1, ds.drop 1, some (decide (n - 1 < 0), Nat.toDigits 10 (n - 1).natAbs)⟩

/-- `Number::toString` of a finite number. -/
def esNumber (neg : Bool) (m : ℕ) : NumLit :=
  if m = 0 then ⟨false, ['0'], [], none⟩
  else esLit neg (shortestDigits 1074 m).1 (shortestDigits 1074 m).2

@[simp] theorem esLit_neg (neg : Bool) (ds : List Char) (n : ℤ) : (esLit neg ds n).neg = neg := by
  unfold esLit
  split
  · rfl
  · split
    · rfl
    · split <;> rfl

/-- The code lays the digits out as ECMAScript does. -/
theorem jcsLayout_eq {ds : List Char} (hds : ds ≠ []) (neg : Bool) (n : ℤ) :
    jcsLayout ds n = (esLit neg ds n).body := by
  have hpos := List.length_pos_iff.mpr hds
  have hsign : (if n - 1 ≥ 0 then '+' else '-') = if decide (n - 1 < 0) then '-' else '+' := by
    by_cases hn : n - 1 < 0
    · rw [if_neg (by omega), if_pos (by simpa using hn)]
    · rw [if_pos (by omega), if_neg (by simpa using hn)]
  unfold jcsLayout esLit
  dsimp only
  by_cases h1 : (ds.length : ℤ) ≤ n ∧ n ≤ 21
  · rw [if_pos h1, if_pos h1]
    exact (List.append_nil _).symm
  rw [if_neg h1, if_neg h1]
  by_cases h2 : 0 < n ∧ n ≤ 21
  · have hdrop : ds.drop n.toNat ≠ [] := by
      rw [ne_eq, List.drop_eq_nil_iff]
      omega
    rw [if_pos h2, if_pos h2, NumLit.body, NumLit.fracText, if_neg hdrop, NumLit.expText,
      List.append_nil]
  rw [if_neg h2, if_neg h2]
  by_cases h3 : -6 < n ∧ n ≤ 0
  · have hfrac : zeros (-n) ++ ds ≠ [] := List.append_ne_nil_of_right_ne_nil _ hds
    rw [if_pos h3, if_pos h3, NumLit.body, NumLit.fracText, if_neg hfrac, NumLit.expText,
      List.append_nil]
    rfl
  rw [if_neg h3, if_neg h3, hsign]
  obtain ⟨d, rest, rfl⟩ := List.exists_cons_of_ne_nil hds
  cases rest with
  | nil => rfl
  | cons d' rest =>
      rw [if_neg (by simp only [List.length_cons]; omega)]
      rfl

/-! ## Following the rewriting -/

theorem takeWhile_ne {x : Char} {a : List Char} (h : ∀ c ∈ a, c ≠ x) (r : List Char) :
    (a ++ x :: r).takeWhile (· ≠ x) = a ∧ (a ++ x :: r).dropWhile (· ≠ x) = x :: r := by
  have ha : ∀ c ∈ a, decide (c ≠ x) = true := fun c hc => decide_eq_true (h c hc)
  rw [List.takeWhile_append_of_pos ha, List.dropWhile_append_of_pos ha,
    List.takeWhile_cons_of_neg (by simp), List.dropWhile_cons_of_neg (by simp), List.append_nil]
  exact ⟨rfl, rfl⟩

theorem ne_of_isDigit {c x : Char} (hc : c.isDigit = true) (hx : x.isDigit = false) : c ≠ x := by
  rintro rfl
  rw [hc] at hx
  cases hx

theorem filter_digits {ds : List Char} (h : ∀ c ∈ ds, c.isDigit) : ds.filter (· ≠ '.') = ds :=
  List.filter_eq_self.mpr fun c hc => decide_eq_true (ne_of_isDigit (h c hc) rfl)

/-- The parts of a literal with a point or an exponent are found again. -/
theorem splitRepr_body {l : NumLit} (hl : l.Valid) (hf : l.fp ≠ [] ∨ l.ex ≠ none) :
    splitRepr l.body = (l.ip ++ l.fp, l.ip.length + NumLit.exponent l.ex) := by
  have hip : ∀ c ∈ l.ip, c ≠ '.' := fun c hc => ne_of_isDigit (hl.ip_digits c hc) rfl
  have hmant : ∀ c ∈ l.ip ++ NumLit.fracText l.fp, c ≠ 'e' := by
    intro c hc
    rcases List.mem_append.mp hc with hc | hc
    · exact ne_of_isDigit (hl.ip_digits c hc) rfl
    · rw [NumLit.fracText] at hc
      split at hc
      · cases hc
      · rcases List.mem_cons.mp hc with rfl | hc
        · decide
        · exact ne_of_isDigit (hl.fp_digits c hc) rfl
  cases hex : l.ex with
  | none =>
      have hfp : l.fp ≠ [] := hf.resolve_right fun h => h hex
      have hbody : l.body = l.ip ++ '.' :: l.fp := by
        rw [NumLit.body, NumLit.fracText, if_neg hfp, hex, NumLit.expText, List.append_nil]
      have he : 'e' ∉ l.ip ++ '.' :: l.fp := by
        rw [NumLit.fracText, if_neg hfp] at hmant
        exact fun h => hmant _ h rfl
      obtain ⟨h1, h2⟩ := takeWhile_ne hip l.fp
      rw [hbody, splitRepr, if_neg he, if_pos (by simp), h1, h2]
      simp [NumLit.exponent]
  | some e =>
      obtain ⟨neg, ds⟩ := e
      have hbody : l.body = (l.ip ++ NumLit.fracText l.fp) ++
          'e' :: (if neg then '-' else '+') :: ds := by
        rw [NumLit.body, hex, NumLit.expText, List.append_assoc]
      have hint : intOfText ((if neg then '-' else '+') :: ds) =
          NumLit.exponent (some (neg, ds)) := by
        cases neg <;> rfl
      obtain ⟨h1, h2⟩ := takeWhile_ne hmant ((if neg then '-' else '+') :: ds)
      rw [hbody, splitRepr, if_pos (by simp)]
      dsimp only
      rw [h1, h2, List.drop_succ_cons, List.drop_zero, hint, List.filter_append,
        filter_digits hl.ip_digits]
      by_cases hfp : l.fp = []
      · have hdot : '.' ∉ l.ip := fun h => hip _ h rfl
        simp [NumLit.fracText, hfp, hdot]
      · have hidx : (l.ip ++ '.' :: l.fp).idxOf '.' = l.ip.length := by
          rw [List.idxOf_append_of_notMem fun h => hip _ h rfl, List.idxOf_cons_self, Nat.add_zero]
        rw [NumLit.fracText, if_neg hfp, if_pos (by simp), hidx,
          List.filter_cons_of_neg (by simp), filter_digits hl.fp_digits]

/-- The digits of `repr` are the shortest ones, with zeros around them. -/
theorem reprLit_digits {ds : List Char} (hds : IsDecimal ds) (neg : Bool) (n : ℤ) :
    ∃ a b : ℕ, (reprLit neg ds n).ip ++ (reprLit neg ds n).fp =
        List.replicate a '0' ++ (ds ++ List.replicate b '0') ∧
      (reprLit neg ds n).ip.length + NumLit.exponent (reprLit neg ds n).ex = n + a := by
  have hpos := length_pos_of_isDecimal hds
  unfold reprLit
  split
  next =>
    refine ⟨0, 0, by simp only [List.take_append_drop, List.replicate_zero, List.nil_append,
      List.append_nil], ?_⟩
    rw [exponent_some (ofDigitChars_twoDigits _), List.length_take]
    omega
  next =>
    split
    next =>
      refine ⟨1 + (-n).toNat, 0, by simp [zeros, List.replicate_add], ?_⟩
      simp only [List.length_cons, List.length_nil, NumLit.exponent]
      omega
    next =>
      split
      next =>
        refine ⟨0, (n - ds.length).toNat + 1, by simp [zeros, List.replicate_add], ?_⟩
        simp only [List.length_append, length_zeros, NumLit.exponent]
        omega
      next =>
        refine ⟨0, 0, by simp, ?_⟩
        simp only [List.length_take, NumLit.exponent]
        omega

/-- Leading zeros are dropped, up to the first digit of the number. -/
theorem dropWhile_zeros {ds : List Char} (hds : IsDecimal ds) (a : ℕ) (r : List Char) :
    (List.replicate a '0' ++ (ds ++ r)).dropWhile (· == '0') = ds ++ r := by
  have hz : ∀ c ∈ List.replicate a '0', (c == '0') = true := fun c hc => by
    rw [List.eq_of_mem_replicate hc]
    rfl
  obtain ⟨c, cs, rfl⟩ := List.exists_cons_of_ne_nil hds.ne_nil
  have hc : c ≠ '0' := hds.head_ne
  rw [List.dropWhile_append_of_pos hz, List.cons_append, List.dropWhile_cons_of_neg (by simpa)]

/-- Trailing zeros are dropped, down to the last digit of the number. -/
theorem rdropWhile_zeros {ds : List Char} (hds : IsDecimal ds) (b : ℕ) :
    (ds ++ List.replicate b '0').rdropWhile (· == '0') = ds := by
  induction b with
  | zero =>
      rw [List.replicate_zero, List.append_nil]
      refine List.rdropWhile_eq_self_iff.mpr fun h => ?_
      simpa using hds.last_ne
  | succ b ih =>
      rw [List.replicate_succ', ← List.append_assoc, List.rdropWhile_concat_pos _ _ _ (by simp), ih]

theorem orZero_of_ne {ds : List Char} (h : ds ≠ []) : orZero ds = ds := if_neg h

theorem head?_text {l : NumLit} (hl : l.Valid) : l.text.head? = some '-' ↔ l.neg = true := by
  obtain ⟨c, cs, hip, hc⟩ := hl.ip_cons
  cases hneg : l.neg with
  | true => simp [NumLit.text, NumLit.signText, hneg]
  | false =>
      have hne : c ≠ '-' := ne_of_isDigit hc rfl
      simp [NumLit.text, NumLit.signText, NumLit.body, hneg, hip, hne]

/-- Laying out `repr` again gives ECMAScript's spelling. -/
theorem jcsSpell_reprLit {ds : List Char} (hds : IsDecimal ds) (neg : Bool) (n : ℤ) :
    jcsSpell (reprLit neg ds n).text = (esLit neg ds n).text := by
  have hl := (reprLit_spec hds neg n).1
  have hneg : decide ((reprLit neg ds n).text.head? = some '-') = neg := by
    have := head?_text hl
    rw [reprLit_neg] at this
    simp [this]
  have hbody : (if neg then (reprLit neg ds n).text.drop 1 else (reprLit neg ds n).text) =
      (reprLit neg ds n).body := by
    rw [NumLit.text, reprLit_neg]
    cases neg <;> rfl
  obtain ⟨a, b, hab, hn⟩ := reprLit_digits hds neg n
  have hne : ds ++ List.replicate b '0' ≠ [] := List.append_ne_nil_of_left_ne_nil hds.ne_nil _
  have hlead : (((List.replicate a '0' ++ (ds ++ List.replicate b '0')).length : ℕ) : ℤ) -
      (ds ++ List.replicate b '0').length = a := by
    rw [List.length_append, List.length_replicate]
    omega
  unfold jcsSpell
  dsimp only
  rw [hneg, hbody, splitRepr_body hl (reprLit_float hds neg n), hab, hn, dropWhile_zeros hds,
    orZero_of_ne hne, rdropWhile_zeros hds, orZero_of_ne hds.ne_nil, hlead,
    jcsLayout_eq hds.ne_nil neg, Int.add_sub_cancel, NumLit.text, esLit_neg]

/-- `_jcs_double` is `Number::toString`. -/
theorem jcsDouble_finite (neg : Bool) (m : Fin (2047 * 2 ^ 52)) :
    jcsDouble (.finite neg m) = .ok (esNumber neg m.val).text := by
  rw [jcsDouble, esNumber]
  split
  next => rfl
  next h =>
    have hds := Binary64.shortestDigits_shape (p := 1074) (Nat.pos_of_ne_zero h)
    rw [floatRepr, finiteLit, if_neg h, jcsSpell_reprLit hds]

/-- `Number::toString` of `0.ds * 10 ^ n`, as text. -/
def numberToString (neg : Bool) (ds : List Char) (n : ℤ) : List Char :=
  let k : ℤ := ds.length
  NumLit.signText neg ++
    if k ≤ n ∧ n ≤ 21 then ds ++ zeros (n - k)
    else if 0 < n ∧ n ≤ 21 then ds.take n.toNat ++ '.' :: ds.drop n.toNat
    else if -6 < n ∧ n ≤ 0 then '0' :: '.' :: (zeros (-n) ++ ds)
    else
      (if k = 1 then ds else ds.take 1 ++ '.' :: ds.drop 1) ++
        'e' :: (if n - 1 < 0 then '-' else '+') :: Nat.toDigits 10 (n - 1).natAbs

/-- The literal in ECMAScript's layout has its text. -/
theorem text_esLit {ds : List Char} (hds : ds ≠ []) (neg : Bool) (n : ℤ) :
    (esLit neg ds n).text = numberToString neg ds n := by
  have hsign : (if n - 1 ≥ 0 then '+' else '-') = if n - 1 < 0 then '-' else '+' := by
    by_cases hn : n - 1 < 0
    · rw [if_neg (by omega), if_pos hn]
    · rw [if_pos (by omega), if_neg hn]
  rw [NumLit.text, esLit_neg, ← jcsLayout_eq hds neg n, jcsLayout, numberToString, hsign]
  split
  next => rfl
  split
  next => rfl
  split
  next => rfl
  split
  next => rfl
  next => rw [List.append_assoc, List.cons_append]

/-- `_jcs_double` is `Number::toString`: it turns every layout of `repr` into that
of ECMAScript, spells a finite float with its shortest digits, both zeros as `0`,
and refuses the rest. -/
theorem jcsDouble_numberToString :
    (∀ neg ds n, IsDecimal ds →
      jcsSpell (reprLit neg ds n).text = numberToString neg ds n) ∧
    (∀ neg (m : Fin (2047 * 2 ^ 52)), m.val ≠ 0 →
      floatRepr (.finite neg m) =
        (reprLit neg (shortestDigits 1074 m.val).1 (shortestDigits 1074 m.val).2).text ∧
      IsDecimal (shortestDigits 1074 m.val).1 ∧
      jcsDouble (.finite neg m) =
        .ok (numberToString neg (shortestDigits 1074 m.val).1 (shortestDigits 1074 m.val).2)) ∧
    (∀ neg (m : Fin (2047 * 2 ^ 52)), m.val = 0 → jcsDouble (.finite neg m) = .ok ['0']) ∧
    ∀ x : Binary64, x.isFinite = false → ∃ text, jcsDouble x = raise .ValueError text := by
  refine ⟨?_, ?_, ?_, ?_⟩
  · intro neg ds n hds
    rw [jcsSpell_reprLit hds, text_esLit hds.ne_nil]
  · intro neg m hm
    have hds := Binary64.shortestDigits_shape (p := 1074) (Nat.pos_of_ne_zero hm)
    refine ⟨by rw [floatRepr, finiteLit, if_neg hm], hds, ?_⟩
    rw [jcsDouble_finite, esNumber, if_neg hm, text_esLit hds.ne_nil]
  · intro neg m hm
    rw [jcsDouble, if_pos hm]
  · intro x hx
    cases x with
    | finite neg m => cases hx
    | inf neg => exact ⟨_, rfl⟩
    | nan => exact ⟨_, rfl⟩

/-- `repr` writes `1e+21` with an exponent, and so does ECMAScript, but only `repr` writes
`1e+16` so. -/
theorem jcsDouble_numberToString_layouts :
    jcsSpell ['1', 'e', '+', '2', '1'] = ['1', 'e', '+', '2', '1'] ∧
      jcsSpell ['1', 'e', '+', '1', '6'] = '1' :: zeros 16 := by
  have hone : IsDecimal ['1'] := ⟨by simp, by simp, by simp, by simp⟩
  exact ⟨jcsDouble_numberToString.1 false ['1'] 22 hone,
    jcsDouble_numberToString.1 false ['1'] 17 hone⟩

/-! ## What a canonical number is read back as -/

/-- The literal is a JSON number with the value of its digits. -/
theorem esLit_spec {ds : List Char} (hds : IsDecimal ds) (neg : Bool) (n : ℤ) :
    (esLit neg ds n).Valid ∧
      (esLit neg ds n).double = ofDecimal neg (Nat.ofDigitChars 10 ds 0) (n - ds.length) := by
  have hpos := length_pos_of_isDecimal hds
  unfold esLit
  split
  next h => exact integer_layout hds neg n h.1 0 rfl
  next h =>
    split
    next h' => exact point_layout hds neg n h'.1 (by omega) rfl
    next h' =>
      split
      next h'' => exact fraction_layout hds neg n h''.2 rfl
      next h'' =>
        exact exponent_layout hds neg n Nat.ofDigitChars_ten_toDigits Nat.toDigits_ne_nil
          isDigit_toDigits rfl

theorem length_esLit_le {ds : List Char} (neg : Bool) (n : ℤ) :
    (esLit neg ds n).ip.length ≤ 21 := by
  unfold esLit
  split
  next h =>
    simp only [List.length_append, length_zeros]
    omega
  next =>
    split
    next h =>
      simp only [List.length_take]
      omega
    next =>
      split
      next => simp
      next =>
        simp only [List.length_take]
        omega

/-- A sign changes a number only if it is not zero. -/
theorem normZero_ofDecimal_congr {neg neg' : Bool} {d : ℕ} {q : ℤ} (h : d ≠ 0 → neg = neg') :
    (ofDecimal neg d q).normZero = (ofDecimal neg' d q).normZero := by
  by_cases hd : d = 0
  · rw [ofDecimal, ofDecimal, hd, Binary64.decIndex_zero]
    rfl
  · rw [h hd]

theorem normZero_ofInt (neg : Bool) (d : ℕ) :
    (ofInt (if neg then -(d : ℤ) else d)).normZero = (ofDecimal neg d 0).normZero := by
  cases neg with
  | true =>
      rw [if_pos rfl, ofInt, Int.natAbs_neg, Int.natAbs_natCast]
      exact normZero_ofDecimal_congr fun hd => by simpa using Nat.pos_of_ne_zero hd
  | false =>
      rw [if_neg Bool.false_ne_true, ofInt, Int.natAbs_natCast]
      exact normZero_ofDecimal_congr fun _ => by simp

/-- A literal is read back as a number of its value, as an `int` if it has
neither point nor exponent. -/
theorem num?_litValue {l : NumLit} (hf : l.double.isFinite = true)
    (hlen : l.ip.length ≤ intMaxStrDigits) :
    ∃ v, litValue l = some v ∧ PyValue.num? v = some l.double.normZero := by
  by_cases hint : l.fp = [] ∧ l.ex = none
  · obtain ⟨n, hn⟩ : ∃ n : ℤ, n = if l.neg then -(Nat.ofDigitChars 10 l.ip 0 : ℤ)
        else Nat.ofDigitChars 10 l.ip 0 := ⟨_, rfl⟩
    have hdouble : l.double = ofDecimal l.neg (Nat.ofDigitChars 10 l.ip 0) 0 := by
      rw [NumLit.double, NumLit.mantissa, NumLit.scale, hint.1, hint.2, List.append_nil]
      rfl
    have hnorm : (ofInt n).normZero = l.double.normZero := by
      rw [hn, normZero_ofInt, hdouble]
    have hfin : (ofInt n).isFinite = true := by
      rw [← Binary64.normZero_isFinite, hnorm, Binary64.normZero_isFinite, hf]
    exact ⟨.int n, by rw [litValue, if_pos hint, if_pos hlen, hn],
      by rw [PyValue.num?, if_pos hfin, hnorm]⟩
  · exact ⟨.float l.double, by rw [litValue, if_neg hint], by rw [PyValue.num?, if_pos hf]⟩

/-- The text of a finite double is read as that double, up to the sign of zero. -/
theorem esNumber_spec (neg : Bool) (m : Fin (2047 * 2 ^ 52)) :
    (esNumber neg m.val).Valid ∧
      (esNumber neg m.val).double.normZero = (Binary64.finite neg m).normZero ∧
      (esNumber neg m.val).ip.length ≤ intMaxStrDigits := by
  unfold esNumber
  split
  next h =>
    refine ⟨⟨by simp [Char.isDigit], Or.inl rfl, by simp, by simp⟩, ?_, by decide⟩
    have hzero : NumLit.double ⟨false, ['0'], [], none⟩ = ofDecimal false 0 0 := rfl
    have hm : Binary64.finite neg m = ofDecimal neg 0 0 := by
      rw [ofDecimal, Binary64.decIndex_zero, ← h, Binary64.ofIndex_val]
    rw [hzero, hm]
    exact normZero_ofDecimal_congr fun hd => absurd rfl hd
  next h =>
    have hds := Binary64.shortestDigits_shape (p := 1074) (Nat.pos_of_ne_zero h)
    obtain ⟨hv, hd⟩ := esLit_spec hds neg (shortestDigits 1074 m.val).2
    refine ⟨hv, by rw [hd, ofDecimal_shortestDigits], ?_⟩
    exact le_trans (length_esLit_le neg _) (by decide)

/-- A canonical number is read back as a number of the same value. -/
theorem reads_jcsDouble {D : Decoder} {x : Binary64} (h : x.isFinite = true) :
    ∃ t v, jcsDouble x = .ok t ∧ Reads D t v ∧ PyValue.num? v = some x.normZero := by
  cases x with
  | finite neg m =>
      obtain ⟨hv, hd, hlen⟩ := esNumber_spec neg m
      have hf : (esNumber neg m.val).double.isFinite = true := by
        rw [← Binary64.normZero_isFinite, hd, Binary64.normZero_isFinite]
        rfl
      obtain ⟨v, hlv, hnum⟩ := num?_litValue hf hlen
      exact ⟨_, v, jcsDouble_finite neg m, Reads.number hv hlv, by rw [hnum, hd]⟩
  | inf neg => cases h
  | nan => cases h

end Corrlog
