import Corrlog.Python.Value

/-!
# Base64

`urlsafe_b64encode` and the strict `b64decode` with the same alphabet.  Bytes
are cut into groups of six bits (`sextets`), of which the alphabet makes
characters.

Decoding accepts more than encoding writes: `+` and `/` for `-` and `_`, and
left-over bits of any value.  A decoder that wants one text for each byte string
has to encode again and compare.
-/

namespace Python

/-! ## Groups of six bits -/

/-- Three bytes make four sextets; the last of an incomplete group is filled up
with zero bits. -/
def sextets : Bytes → List ℕ
  | [] => []
  | [a] => [a.toNat / 4, a.toNat % 4 * 16]
  | [a, b] => [a.toNat / 4, a.toNat % 4 * 16 + b.toNat / 16, b.toNat % 16 * 4]
  | a :: b :: c :: data =>
      a.toNat / 4 :: (a.toNat % 4 * 16 + b.toNat / 16) :: (b.toNat % 16 * 4 + c.toNat / 64) ::
        c.toNat % 64 :: sextets data

/-- The bytes of sextets.  Left-over bits are dropped, a left-over sextet is an
error. -/
def ofSextets : List ℕ → Option Bytes
  | [] => some []
  | [_] => none
  | [p, q] => some [UInt8.ofNat (p * 4 + q / 16)]
  | [p, q, r] => some [UInt8.ofNat (p * 4 + q / 16), UInt8.ofNat (q % 16 * 16 + r / 4)]
  | p :: q :: r :: s :: rest =>
      (ofSextets rest).map fun data =>
        UInt8.ofNat (p * 4 + q / 16) :: UInt8.ofNat (q % 16 * 16 + r / 4) ::
          UInt8.ofNat (r % 4 * 64 + s) :: data

theorem ofNat_eq_of_toNat {n : ℕ} {a : UInt8} (h : n = a.toNat) : UInt8.ofNat n = a := by
  rw [h, UInt8.ofNat_toNat]

/-- Bytes are recovered from their sextets. -/
theorem ofSextets_sextets : ∀ data : Bytes, ofSextets (sextets data) = some data
  | [] => rfl
  | [a] => by
      rw [sextets, ofSextets, ofNat_eq_of_toNat (a := a) (by omega)]
  | [a, b] => by
      have := b.toNat_lt
      rw [sextets, ofSextets, ofNat_eq_of_toNat (a := a) (by omega),
        ofNat_eq_of_toNat (a := b) (by omega)]
  | a :: b :: c :: data => by
      have := b.toNat_lt
      have := c.toNat_lt
      rw [sextets, ofSextets, ofSextets_sextets data, Option.map_some,
        ofNat_eq_of_toNat (a := a) (by omega), ofNat_eq_of_toNat (a := b) (by omega),
        ofNat_eq_of_toNat (a := c) (by omega)]

/-- Each sextet has six bits. -/
theorem sextets_lt : ∀ data : Bytes, ∀ n ∈ sextets data, n < 64
  | [] => by simp [sextets]
  | [a] => by
      have := a.toNat_lt
      simp only [sextets, List.forall_mem_cons]
      exact ⟨by omega, by omega, fun _ h => absurd h List.not_mem_nil⟩
  | [a, b] => by
      have := a.toNat_lt
      have := b.toNat_lt
      simp only [sextets, List.forall_mem_cons]
      exact ⟨by omega, by omega, by omega, fun _ h => absurd h List.not_mem_nil⟩
  | a :: b :: c :: data => by
      have := a.toNat_lt
      have := b.toNat_lt
      have := c.toNat_lt
      simp only [sextets, List.forall_mem_cons]
      exact ⟨by omega, by omega, by omega, by omega, sextets_lt data⟩

/-- Three bytes are four sextets, and what is left is rounded up. -/
theorem length_sextets : ∀ data : Bytes, (sextets data).length = (data.length * 4 + 2) / 3
  | [] => rfl
  | [_] => by simp [sextets]
  | [_, _] => by simp [sextets]
  | a :: b :: c :: data => by
      have := length_sextets data
      simp only [sextets, List.length_cons]
      omega

/-! ## The alphabet -/

/-- The character of a sextet in the URL-safe alphabet. -/
def sextetChar (n : ℕ) : Char :=
  if n < 26 then Char.ofNat (65 + n)
  else if n < 52 then Char.ofNat (71 + n)
  else if n < 62 then Char.ofNat (n - 4)
  else if n = 62 then '-' else '_'

/-- The sextet of a code point, after `-` and `_` are translated to `+` and `/`:
these stand for themselves as well. -/
def ordSextet (o : ℕ) : Option ℕ :=
  if 65 ≤ o ∧ o ≤ 90 then some (o - 65)
  else if 97 ≤ o ∧ o ≤ 122 then some (o - 71)
  else if 48 ≤ o ∧ o ≤ 57 then some (o + 4)
  else if o = 43 ∨ o = 45 then some 62
  else if o = 47 ∨ o = 95 then some 63
  else none

/-- The decoder maps each character of the alphabet back; none is the padding. -/
theorem sextetChar_spec :
    ∀ n < 64, ordSextet (sextetChar n).toNat = some n ∧ sextetChar n ≠ '=' := by
  decide

/-! ## Encoding and decoding -/

/-- The padding that completes `n` characters to a multiple of four. -/
def padding (n : ℕ) : List Char := List.replicate ((4 - n % 4) % 4) '='

/-- `base64.urlsafe_b64encode(data).decode("ascii")`. -/
def urlsafeB64encode (data : Bytes) : List Char :=
  (sextets data).map sextetChar ++ padding (sextets data).length

/-- `base64.b64decode(s, altchars=b"-_", validate=True)`: characters of the
alphabet, then the padding that completes them. -/
def b64decode (s : PyStr) : Except PyErr Bytes :=
  let data := s.takeWhile (· ≠ .scalar '=')
  if s = data ++ ofChars (padding data.length) then
    match (data.mapM fun c => ordSextet (ord c)).bind ofSextets with
    | some b => .ok b
    | none => builtinError .ValueError
  else builtinError .ValueError

theorem takeWhile_append_padding {l : List Char} (h : '=' ∉ l) (n : ℕ) :
    (ofChars l ++ ofChars (padding n)).takeWhile (· ≠ .scalar '=') = ofChars l := by
  have hl : ∀ c ∈ ofChars l, decide (c ≠ CodePoint.scalar '=') = true := by
    intro c hc
    obtain ⟨d, hd, rfl⟩ := List.mem_map.mp hc
    rw [decide_eq_true_eq]
    rintro he
    cases he
    exact h hd
  rw [List.takeWhile_append_of_pos hl, padding]
  cases (4 - n % 4) % 4 with
  | zero => rw [List.replicate_zero, ofChars_nil, List.takeWhile_nil, List.append_nil]
  | succ k =>
      rw [List.replicate_succ, ofChars_cons, List.takeWhile_cons_of_neg (by simp), List.append_nil]

theorem mapM_ordSextet {ns : List ℕ} (h : ∀ n ∈ ns, n < 64) :
    (ofChars (ns.map sextetChar)).mapM (fun c => ordSextet (ord c)) = some ns := by
  induction ns with
  | nil => rfl
  | cons n ns ih =>
      obtain ⟨hn, hns⟩ := List.forall_mem_cons.mp h
      rw [List.map_cons, ofChars_cons, List.mapM_cons, ord, (sextetChar_spec n hn).1, ih hns]
      rfl

/-- No character that is written is a padding. -/
theorem pad_not_mem_sextets (data : Bytes) : '=' ∉ (sextets data).map sextetChar := by
  rw [List.mem_map]
  rintro ⟨n, hn, he⟩
  exact (sextetChar_spec n (sextets_lt data n hn)).2 he

/-- What is encoded, with its padding, is decoded again. -/
theorem b64decode_encode (data : Bytes) :
    b64decode (ofChars (urlsafeB64encode data)) = .ok data := by
  rw [b64decode, urlsafeB64encode, ofChars_append,
    takeWhile_append_padding (pad_not_mem_sextets data), length_ofChars, List.length_map,
    if_pos rfl, mapM_ordSextet (sextets_lt data), Option.bind_some, ofSextets_sextets]

end Python
