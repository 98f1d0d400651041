import Mathlib.Data.List.Basic
import Mathlib.Data.UInt
import Mathlib.Order.Basic
import Mathlib.Tactic.Common

/-!
# Python strings and bytes

A Python `str` is a sequence of code points and, unlike a Lean `String`, may
hold surrogates.  A code point is a Unicode scalar value or one of the 2048
surrogates, so that "without surrogates" is a statement about constructors.

`encodeUtf8` and `decodeUtf8` are the strict UTF-8 codec, which knows no
surrogates.  What is decoded is therefore a text, a list of characters, and
`utf8` is the inverse on texts (`decodeUtf8_eq_some_iff`).
`encodeUtf16be` is `str.encode("utf-16-be", "surrogatepass")`.  It is injective
on strings without surrogates (`encodeUtf16be_injective`), and only there: a
pair of surrogates and the astral character they spell have the same bytes.
-/

namespace Python

/-! ## Code points -/

/-- A code point: a Unicode scalar value or a surrogate, counted from `U+D800`. -/
inductive CodePoint where
  | scalar (c : Char)
  | surrogate (s : Fin 2048)
deriving DecidableEq

/-- `ord(c)`. -/
def ord : CodePoint → ℕ
  | .scalar c => c.toNat
  | .surrogate s => 0xD800 + s.val

/-- `chr(n)`. -/
def chr (n : ℕ) : CodePoint :=
  if h : 0xD800 ≤ n ∧ n < 0xE000 then .surrogate ⟨n - 0xD800, by omega⟩
  else .scalar (Char.ofNat n)

/-- Not a surrogate. -/
def CodePoint.isScalar : CodePoint → Bool
  | .scalar _ => true
  | .surrogate _ => false

/-- The two ranges of scalar values, below and above the surrogates. -/
theorem char_toNat_range (c : Char) :
    c.toNat < 0xD800 ∨ (0xE000 ≤ c.toNat ∧ c.toNat < 0x110000) := by
  have h := c.valid
  rw [UInt32.isValidChar, Nat.isValidChar] at h
  have : c.toNat = c.val.toNat := rfl
  omega

/-- `chr` undoes `ord`. -/
@[simp] theorem chr_ord (c : CodePoint) : chr (ord c) = c := by
  cases c with
  | scalar c =>
      have := char_toNat_range c
      rw [ord, chr, dif_neg (by omega), Char.ofNat_toNat]
  | surrogate s =>
      have := s.isLt
      rw [ord, chr, dif_pos (by omega), CodePoint.surrogate.injEq]
      exact Fin.ext (Nat.add_sub_cancel_left _ _)

/-- `ord` tells code points apart. -/
theorem ord_injective : Function.Injective ord := fun a b h => by
  rw [← chr_ord a, ← chr_ord b, h]

theorem ord_lt (c : CodePoint) : ord c < 0x110000 := by
  cases c with
  | scalar c => have := char_toNat_range c; simp only [ord]; omega
  | surrogate s => have := s.isLt; simp only [ord]; omega

/-- Below the last code point `ord` undoes `chr`. -/
theorem ord_chr {n : ℕ} (h : n < 0x110000) : ord (chr n) = n := by
  by_cases hs : 0xD800 ≤ n ∧ n < 0xE000
  · rw [chr, dif_pos hs, ord]
    exact Nat.add_sub_of_le hs.1
  · have hv : n.isValidChar := by
      unfold Nat.isValidChar
      omega
    rw [chr, dif_neg hs, ord, Char.ofNat, dif_pos hv]
    rfl

/-- Scalar values are the code points that are no surrogates. -/
theorem isScalar_iff (c : CodePoint) : c.isScalar = true ↔ ord c < 0xD800 ∨ 0xE000 ≤ ord c := by
  cases c with
  | scalar c =>
      have := char_toNat_range c
      simp only [CodePoint.isScalar, ord, true_iff]
      omega
  | surrogate s =>
      have := s.isLt
      simp only [CodePoint.isScalar, ord, Bool.false_eq_true, false_iff]
      omega

/-! ## Strings -/

/-- A Python `str`. -/
abbrev PyStr := List CodePoint

/-- Text without surrogates. -/
def ofChars (cs : List Char) : PyStr := cs.map .scalar

/-- A string literal.  Those of the code are ASCII, one byte a character. -/
def lit (s : String) : PyStr := s.toByteArray.data.toList.map fun b => .scalar (Char.ofNat b.toNat)

@[simp] theorem ofChars_nil : ofChars [] = [] := rfl

@[simp] theorem ofChars_cons (c : Char) (cs : List Char) :
    ofChars (c :: cs) = .scalar c :: ofChars cs := rfl

@[simp] theorem ofChars_append (cs ds : List Char) :
    ofChars (cs ++ ds) = ofChars cs ++ ofChars ds := List.map_append

@[simp] theorem length_ofChars (cs : List Char) : (ofChars cs).length = cs.length :=
  List.length_map _

/-- A string of Unicode characters determines them. -/
theorem ofChars_injective : Function.Injective ofChars :=
  List.map_injective_iff.mpr fun _ _ h => CodePoint.scalar.inj h

/-- Different literals are different strings. -/
theorem lit_injective : Function.Injective lit := fun s t h => by
  have hchar : Function.Injective fun b : UInt8 => CodePoint.scalar (Char.ofNat b.toNat) := by
    intro a b hab
    have hlt (c : UInt8) : c.toNat < 0x110000 := by have := c.toNat_lt; omega
    have hord (c : UInt8) : ord (.scalar (Char.ofNat c.toNat)) = c.toNat := by
      have hc := c.toNat_lt
      have := ord_chr (hlt c)
      rwa [chr, dif_neg (by omega)] at this
    have := congrArg ord hab
    rw [hord, hord] at this
    exact UInt8.toNat_inj.mp this
  have hbytes := List.map_injective_iff.mpr hchar h
  exact String.toByteArray_inj.mp (ByteArray.ext (Array.toList_inj.mp hbytes))

/-- No surrogate in the string. -/
def noSurrogates (s : PyStr) : Bool := s.all CodePoint.isScalar

@[simp] theorem noSurrogates_nil : noSurrogates [] = true := rfl

@[simp] theorem noSurrogates_cons (c : CodePoint) (s : PyStr) :
    noSurrogates (c :: s) = (c.isScalar && noSurrogates s) := rfl

@[simp] theorem noSurrogates_append (s t : PyStr) :
    noSurrogates (s ++ t) = (noSurrogates s && noSurrogates t) := List.all_append

/-- Characters are never surrogates. -/
@[simp] theorem noSurrogates_ofChars (cs : List Char) : noSurrogates (ofChars cs) = true := by
  simp [noSurrogates, ofChars, CodePoint.isScalar]

@[simp] theorem noSurrogates_lit (s : String) : noSurrogates (lit s) = true := by
  rw [noSurrogates, lit, List.all_map]
  exact List.all_eq_true.mpr fun _ _ => rfl

/-- The characters of a string without surrogates. -/
def chars? : PyStr → Option (List Char)
  | [] => some []
  | .scalar c :: s => (chars? s).map (c :: ·)
  | .surrogate _ :: _ => none

theorem chars?_eq_some_iff {s : PyStr} {cs : List Char} : chars? s = some cs ↔ s = ofChars cs := by
  induction s generalizing cs with
  | nil => cases cs <;> simp [chars?]
  | cons c s ih =>
      cases c with
      | scalar c =>
          rw [chars?, Option.map_eq_some_iff]
          constructor
          · rintro ⟨ds, hds, rfl⟩
            rw [ih.mp hds, ofChars_cons]
          · intro h
            cases cs with
            | nil => cases h
            | cons d ds =>
                rw [ofChars_cons, List.cons.injEq, CodePoint.scalar.injEq] at h
                exact ⟨ds, ih.mpr h.2, by rw [h.1]⟩
      | surrogate s' =>
          constructor
          · intro h; cases h
          · intro h
            cases cs with
            | nil => cases h
            | cons d ds => cases h

/-- Without surrogates a string is one of Unicode characters. -/
theorem exists_chars_of_noSurrogates {s : PyStr} (h : noSurrogates s = true) :
    ∃ cs, s = ofChars cs := by
  induction s with
  | nil => exact ⟨[], rfl⟩
  | cons c s ih =>
      rw [noSurrogates_cons, Bool.and_eq_true] at h
      obtain ⟨cs, rfl⟩ := ih h.2
      cases c with
      | scalar c => exact ⟨c :: cs, rfl⟩
      | surrogate s' => cases h.1

/-! ## UTF-8 -/

/-- A Python `bytes`. -/
abbrev Bytes := List UInt8

/-- The UTF-8 bytes of a text. -/
def utf8 (cs : List Char) : Bytes := cs.flatMap String.utf8EncodeChar

/-- `s.encode("utf-8")`, which fails on a surrogate. -/
def encodeUtf8 (s : PyStr) : Option Bytes := (chars? s).map utf8

/-- `b.decode("utf-8")`.  The result has no surrogates. -/
def decodeUtf8 (b : Bytes) : Option (List Char) := b.toByteArray.utf8Decode?.map Array.toList

theorem toByteArray_utf8 (cs : List Char) : (utf8 cs).toByteArray = cs.utf8Encode := rfl

theorem toByteArray_injective : Function.Injective List.toByteArray := by
  intro a b h
  have := congrArg (fun x : ByteArray => x.data.toList) h
  simpa using this

@[simp] theorem utf8_nil : utf8 [] = [] := rfl

@[simp] theorem utf8_append (cs ds : List Char) : utf8 (cs ++ ds) = utf8 cs ++ utf8 ds :=
  List.flatMap_append

/-- `encode("utf-8")` does not fail for Unicode characters. -/
@[simp] theorem encodeUtf8_ofChars (cs : List Char) : encodeUtf8 (ofChars cs) = some (utf8 cs) := by
  rw [encodeUtf8, chars?_eq_some_iff.mpr rfl, Option.map_some]

/-- The codec is a bijection between texts and valid UTF-8. -/
theorem decodeUtf8_eq_some_iff {b : Bytes} {cs : List Char} :
    decodeUtf8 b = some cs ↔ b = utf8 cs := by
  constructor
  · intro h
    obtain ⟨ds, hds, rfl⟩ := Option.map_eq_some_iff.mp h
    apply toByteArray_injective
    rw [toByteArray_utf8]
    have hsome : b.toByteArray.utf8Decode?.isSome = true := by rw [hds]; rfl
    have hget : b.toByteArray.utf8Decode?.get hsome = ds := by
      simp only [hds, Option.get_some]
    rw [← hget]
    exact ByteArray.utf8Encode_get_utf8Decode?.symm
  · rintro rfl
    rw [decodeUtf8, toByteArray_utf8, List.utf8Decode?_utf8Encode, Option.map_some]

/-- What has been encoded is decoded as it was. -/
@[simp] theorem decodeUtf8_utf8 (cs : List Char) : decodeUtf8 (utf8 cs) = some cs :=
  decodeUtf8_eq_some_iff.mpr rfl

/-- UTF-8 tells texts apart. -/
theorem utf8_injective : Function.Injective utf8 := fun cs ds h => by
  have h1 := decodeUtf8_utf8 cs
  rw [h, decodeUtf8_utf8] at h1
  exact (Option.some.inj h1).symm

/-! ## UTF-16 -/

/-- The UTF-16 code units of a code point, a surrogate being its own unit. -/
def utf16Units (c : CodePoint) : List ℕ :=
  let o := ord c
  if o < 0x10000 then [o] else [0xD800 + (o - 0x10000) / 1024, 0xDC00 + (o - 0x10000) % 1024]

/-- The two bytes of a code unit, high byte first. -/
def unitBytes (u : ℕ) : Bytes := [UInt8.ofNat (u / 256), UInt8.ofNat (u % 256)]

/-- `s.encode("utf-16-be", "surrogatepass")`. -/
def encodeUtf16be (s : PyStr) : Bytes := (s.flatMap utf16Units).flatMap unitBytes

/-- The units of UTF-16 have 16 bits. -/
theorem utf16Units_lt (c : CodePoint) : ∀ u ∈ utf16Units c, u < 0x10000 := by
  intro u hu
  have := ord_lt c
  unfold utf16Units at hu
  dsimp only at hu
  split at hu
  next h => simp only [List.mem_singleton] at hu; omega
  next h => simp only [List.mem_cons, List.not_mem_nil, or_false] at hu; omega

/-- The two bytes of a unit determine it. -/
theorem unitBytes_injective {u v : ℕ} (hu : u < 0x10000) (hv : v < 0x10000)
    (h : unitBytes u = unitBytes v) : u = v := by
  simp only [unitBytes, List.cons.injEq, and_true] at h
  have h1 := congrArg UInt8.toNat h.1
  have h2 := congrArg UInt8.toNat h.2
  simp only [UInt8.toNat_ofNat'] at h1 h2
  omega

theorem flatMap_unitBytes_injective :
    ∀ {us vs : List ℕ}, (∀ u ∈ us, u < 0x10000) → (∀ v ∈ vs, v < 0x10000) →
      us.flatMap unitBytes = vs.flatMap unitBytes → us = vs
  | [], [], _, _, _ => rfl
  | [], v :: vs, _, _, h => by simp [unitBytes] at h
  | u :: us, [], _, _, h => by simp [unitBytes] at h
  | u :: us, v :: vs, hu, hv, h => by
      rw [List.flatMap_cons, List.flatMap_cons] at h
      obtain ⟨h1, h2⟩ := List.append_inj h rfl
      rw [unitBytes_injective (hu u List.mem_cons_self) (hv v List.mem_cons_self) h1,
        flatMap_unitBytes_injective (fun x hx => hu x (List.mem_cons_of_mem _ hx))
          (fun x hx => hv x (List.mem_cons_of_mem _ hx)) h2]

/-- The units of a scalar value do not start with those of another one. -/
theorem utf16Units_append_injective {c d : CodePoint} (hc : c.isScalar = true)
    (hd : d.isScalar = true) {us vs : List ℕ} (h : utf16Units c ++ us = utf16Units d ++ vs) :
    c = d ∧ us = vs := by
  rw [isScalar_iff] at hc hd
  have hcl := ord_lt c
  have hdl := ord_lt d
  unfold utf16Units at h
  dsimp only at h
  by_cases h1 : ord c < 0x10000 <;> by_cases h2 : ord d < 0x10000
  · rw [if_pos h1, if_pos h2] at h
    simp only [List.cons_append, List.nil_append, List.cons.injEq] at h
    exact ⟨ord_injective h.1, h.2⟩
  · rw [if_pos h1, if_neg h2] at h
    simp only [List.cons_append, List.nil_append, List.cons.injEq] at h
    omega
  · rw [if_neg h1, if_pos h2] at h
    simp only [List.cons_append, List.nil_append, List.cons.injEq] at h
    omega
  · rw [if_neg h1, if_neg h2] at h
    simp only [List.cons_append, List.nil_append, List.cons.injEq] at h
    exact ⟨ord_injective (by omega), h.2.2⟩

/-- Without surrogates no two strings have the same units: a scalar value above U+FFFF starts
with a surrogate, the others are no surrogates. -/
theorem flatMap_utf16Units_injective :
    ∀ {s t : PyStr}, noSurrogates s = true → noSurrogates t = true →
      s.flatMap utf16Units = t.flatMap utf16Units → s = t
  | [], [], _, _, _ => rfl
  | [], d :: t, _, _, h => by
      rw [List.flatMap_nil, List.flatMap_cons] at h
      have := congrArg List.length h
      unfold utf16Units at this
      dsimp only at this
      split at this <;> simp at this
  | c :: s, [], _, _, h => by
      rw [List.flatMap_nil, List.flatMap_cons] at h
      have := congrArg List.length h
      unfold utf16Units at this
      dsimp only at this
      split at this <;> simp at this
  | c :: s, d :: t, hs, ht, h => by
      rw [noSurrogates_cons, Bool.and_eq_true] at hs ht
      rw [List.flatMap_cons, List.flatMap_cons] at h
      obtain ⟨h1, h2⟩ := utf16Units_append_injective hs.1 ht.1 h
      rw [h1, flatMap_utf16Units_injective hs.2 ht.2 h2]

/-- The sort keys of canonical JSON are distinct for distinct names. -/
theorem encodeUtf16be_injective {s t : PyStr} (hs : noSurrogates s = true)
    (ht : noSurrogates t = true) (h : encodeUtf16be s = encodeUtf16be t) : s = t := by
  refine flatMap_utf16Units_injective hs ht (flatMap_unitBytes_injective ?_ ?_ h)
  · intro u hu
    obtain ⟨c, _, hc⟩ := List.mem_flatMap.mp hu
    exact utf16Units_lt c u hc
  · intro u hu
    obtain ⟨c, _, hc⟩ := List.mem_flatMap.mp hu
    exact utf16Units_lt c u hc

end Python
