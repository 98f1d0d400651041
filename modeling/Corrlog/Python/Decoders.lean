import Corrlog.Python.Base64
import Corrlog.Python.Reads
import Corrlog.Python.TextFile

/-!
# Decoders that skip

`urlsafe_b64decode` leaves out every character that is not in the alphabet and stops
at the padding that completes a group; `bytes.fromhex` leaves out white space between
bytes.  Both read what encoders write (`urlsafeB64decode_eq`, `HexOf.fromHex_eq`), and
neither makes more bytes than the text has room for (`urlsafeB64decode_length_le`,
`fromHex_length_le`).

`str.strip` on a string that may hold surrogates is here as well.
-/

namespace Python

/-! ## base64 -/

/-- What `binascii.a2b_base64` reads when it is not strict: `quadPos` sextets of a group
are read, and `pads` paddings after them. -/
def scanSextets (quadPos pads : ℕ) : PyStr → Option (List ℕ)
  | [] => if quadPos = 0 then some [] else none
  | c :: s =>
      if c = .scalar '=' then
        -- no byte of the group is there yet that padding could complete
        if quadPos < 2 then scanSextets quadPos pads s
        else if 4 ≤ quadPos + (pads + 1) then some []
        else scanSextets quadPos (pads + 1) s
      else
        match ordSextet (ord c) with
        | none => scanSextets quadPos pads s
        | some n => (scanSextets ((quadPos + 1) % 4) 0 s).map (n :: ·)

/-- `base64.urlsafe_b64decode(s)`. -/
def urlsafeB64decode (s : PyStr) : Except PyErr Bytes :=
  if s.all fun c => ord c < 128 then
    match (scanSextets 0 0 s).bind ofSextets with
    | some data => .ok data
    | none => builtinError .ValueError
  else builtinError .ValueError

theorem scanSextets_length_le {s : PyStr} {quadPos pads : ℕ} {ns : List ℕ}
    (h : scanSextets quadPos pads s = some ns) : ns.length ≤ s.length := by
  induction s generalizing quadPos pads ns with
  | nil =>
      rw [scanSextets] at h
      split at h
      · cases h
        exact Nat.zero_le _
      · cases h
  | cons c s ih =>
      rw [scanSextets] at h
      split at h
      · split at h
        · exact Nat.le_succ_of_le (ih h)
        · split at h
          · cases h
            exact Nat.zero_le _
          · exact Nat.le_succ_of_le (ih h)
      · split at h
        · exact Nat.le_succ_of_le (ih h)
        · obtain ⟨ms, hms, rfl⟩ := Option.map_eq_some_iff.mp h
          exact Nat.succ_le_succ (ih hms)

/-- Four sextets make three bytes. -/
theorem length_ofSextets : ∀ {ns : List ℕ} {data : Bytes}, ofSextets ns = some data →
    data.length = ns.length * 3 / 4
  | [], _, h => by
      cases h
      rfl
  | [_], _, h => by cases h
  | [_, _], _, h => by
      cases h
      simp
  | [_, _, _], _, h => by
      cases h
      simp
  | _ :: _ :: _ :: _ :: rest, _, h => by
      obtain ⟨data, hdata, rfl⟩ := Option.map_eq_some_iff.mp h
      have := length_ofSextets hdata
      simp only [List.length_cons]
      omega

/-- `ofSextets` fails on a left-over sextet only. -/
theorem exists_ofSextets : ∀ ns : List ℕ, ns.length % 4 ≠ 1 → ∃ data, ofSextets ns = some data
  | [], _ => ⟨_, rfl⟩
  | [_], h => absurd rfl h
  | [_, _], _ => ⟨_, rfl⟩
  | [_, _, _], _ => ⟨_, rfl⟩
  | _ :: _ :: _ :: _ :: rest, h => by
      simp only [List.length_cons] at h
      obtain ⟨data, hdata⟩ := exists_ofSextets rest (by omega)
      rw [ofSextets, hdata]
      exact ⟨_, rfl⟩

theorem urlsafeB64decode_length_le {s : PyStr} {data : Bytes} (h : urlsafeB64decode s = .ok data) :
    data.length ≤ s.length * 3 / 4 := by
  rw [urlsafeB64decode] at h
  split at h
  · split at h
    next hdata =>
      cases h
      obtain ⟨ns, hns, hdata⟩ := Option.bind_eq_some_iff.mp hdata
      rw [length_ofSextets hdata]
      exact Nat.div_le_div_right (Nat.mul_le_mul_right 3 (scanSextets_length_le hns))
    next => cases h
  · cases h

/-- Characters of the alphabet are all read. -/
theorem scanSextets_append {s : PyStr} {ns : List ℕ}
    (h : s.mapM (fun c => ordSextet (ord c)) = some ns) {quadPos : ℕ} (hq : quadPos < 4)
    (t : PyStr) : scanSextets quadPos 0 (s ++ t) =
      (scanSextets ((quadPos + ns.length) % 4) 0 t).map (ns ++ ·) := by
  induction s generalizing ns quadPos with
  | nil =>
      rw [List.mapM_nil] at h
      cases h
      rw [List.nil_append, List.length_nil, Nat.add_zero, Nat.mod_eq_of_lt hq]
      exact Option.map_id'.symm
  | cons c s ih =>
      rw [List.mapM_cons] at h
      obtain ⟨n, hn, h⟩ := Option.bind_eq_some_iff.mp h
      obtain ⟨ms, hms, h⟩ := Option.bind_eq_some_iff.mp h
      cases h
      have hc : c ≠ .scalar '=' := by
        intro he
        rw [he] at hn
        cases hn
      have hlen : ((quadPos + 1) % 4 + ms.length) % 4 = (quadPos + (n :: ms).length) % 4 := by
        rw [List.length_cons]
        omega
      rw [List.cons_append, scanSextets, if_neg hc, hn]
      show (scanSextets ((quadPos + 1) % 4) 0 (s ++ t)).map (n :: ·) = _
      rw [ih hms (Nat.mod_lt _ (by omega)), Option.map_map, hlen]
      rfl

/-- The padding completes the group. -/
theorem scanSextets_padding {n : ℕ} (h : n % 4 ≠ 1) :
    scanSextets (n % 4) 0 (ofChars (padding n)) = some [] := by
  have hcases : n % 4 = 0 ∨ n % 4 = 2 ∨ n % 4 = 3 := by omega
  rw [padding]
  rcases hcases with h | h | h
  · rw [h]
    rfl
  · rw [h]
    rfl
  · rw [h]
    rfl

theorem ordSextet_range {o n : ℕ} (h : ordSextet o = some n) : 43 ≤ o ∧ o ≤ 122 := by
  rw [ordSextet] at h
  split at h
  · omega
  · split at h
    · omega
    · split at h
      · omega
      · split at h
        · omega
        · split at h
          · omega
          · cases h

theorem mapM_ordSextet_spec {s : PyStr} {ns : List ℕ}
    (h : s.mapM (fun c => ordSextet (ord c)) = some ns) :
    ns.length = s.length ∧ ∀ c ∈ s, ∃ n, ordSextet (ord c) = some n := by
  induction s generalizing ns with
  | nil =>
      cases h
      exact ⟨rfl, fun c hc => absurd hc List.not_mem_nil⟩
  | cons c s ih =>
      rw [List.mapM_cons] at h
      obtain ⟨n, hn, h⟩ := Option.bind_eq_some_iff.mp h
      obtain ⟨ms, hms, h⟩ := Option.bind_eq_some_iff.mp h
      cases h
      obtain ⟨hlen, hmem⟩ := ih hms
      exact ⟨congrArg Nat.succ hlen, List.forall_mem_cons.mpr ⟨⟨n, hn⟩, hmem⟩⟩

/-- Characters of the alphabet and the padding that completes them. -/
theorem urlsafeB64decode_eq {s : PyStr} {ns : List ℕ} {data : Bytes}
    (h : s.mapM (fun c => ordSextet (ord c)) = some ns) (hdata : ofSextets ns = some data)
    (hn : s.length % 4 ≠ 1) : urlsafeB64decode (s ++ ofChars (padding s.length)) = .ok data := by
  obtain ⟨hlen, hmem⟩ := mapM_ordSextet_spec h
  have hpad : ∀ c ∈ ofChars (padding s.length), ord c < 128 := by
    intro c hc
    obtain ⟨d, hd, rfl⟩ := List.mem_map.mp hc
    rw [List.eq_of_mem_replicate hd]
    decide
  have hall : (s ++ ofChars (padding s.length)).all (fun c => decide (ord c < 128)) = true := by
    rw [List.all_eq_true]
    intro c hc
    rcases List.mem_append.mp hc with hc | hc
    · obtain ⟨n, hn⟩ := hmem c hc
      exact decide_eq_true ((ordSextet_range hn).2.trans_lt (by omega))
    · exact decide_eq_true (hpad c hc)
  rw [urlsafeB64decode, if_pos hall, scanSextets_append h (by omega), Nat.zero_add, hlen,
    scanSextets_padding hn, Option.map_some, List.append_nil, Option.bind_some, hdata]

/-! ## Hexadecimal digits -/

/-- The value of a hexadecimal digit. -/
def digit16 : CodePoint → Option ℕ
  | .scalar c => hexVal c
  | .surrogate _ => none

/-- The white space `bytes.fromhex` skips. -/
def isAsciiSpace (c : CodePoint) : Bool :=
  let o := ord c
  (9 ≤ o && o ≤ 13) || o = 32

/-- `bytes.fromhex(s)`. -/
def fromHex : PyStr → Option Bytes
  | [] => some []
  | [c] => if isAsciiSpace c then some [] else none
  | c :: d :: s =>
      if isAsciiSpace c then fromHex (d :: s)
      else
        match digit16 c, digit16 d with
        | some m, some n => (fromHex s).map (UInt8.ofNat (m * 16 + n) :: ·)
        | _, _ => none

theorem fromHex_length_le : ∀ {s : PyStr} {data : Bytes}, fromHex s = some data →
    data.length ≤ s.length / 2
  | [], _, h => by
      cases h
      rfl
  | [c], _, h => by
      rw [fromHex] at h
      split at h
      · cases h
        exact Nat.zero_le _
      · cases h
  | c :: d :: s, data, h => by
      rw [fromHex] at h
      split at h
      · have := fromHex_length_le h
        rw [List.length_cons]
        omega
      · split at h
        next m n _ _ =>
          obtain ⟨data, hdata, rfl⟩ := Option.map_eq_some_iff.mp h
          have := fromHex_length_le hdata
          simp only [List.length_cons]
          omega
        next => cases h

/-- The text has the digits of the bytes, in either case. -/
inductive HexOf : List Char → Bytes → Prop
  | nil : HexOf [] []
  | cons {c d : Char} {b : UInt8} {s : List Char} {data : Bytes}
      (hc : hexVal c = some (b.toNat / 16)) (hd : hexVal d = some (b.toNat % 16))
      (h : HexOf s data) : HexOf (c :: d :: s) (b :: data)

/-- `data.hex()`. -/
def hex (data : Bytes) : List Char :=
  data.flatMap fun b => [Nat.digitChar (b.toNat / 16), Nat.digitChar (b.toNat % 16)]

theorem hexOf_hex (data : Bytes) : HexOf (hex data) data := by
  induction data with
  | nil => exact .nil
  | cons b data ih =>
      have := b.toNat_lt
      exact .cons (hexVal_digitChar _ (by omega)) (hexVal_digitChar _ (by omega)) ih

/-- The characters that are digits. -/
theorem hexVal_spec {c : Char} {n : ℕ} (h : hexVal c = some n) :
    (48 ≤ c.toNat ∧ c.toNat ≤ 57) ∨ (65 ≤ c.toNat ∧ c.toNat ≤ 70) ∨
      (97 ≤ c.toNat ∧ c.toNat ≤ 102) := by
  rw [hexVal] at h
  split at h
  next hdigit =>
    rw [Char.isDigit, Bool.and_eq_true, decide_eq_true_eq, decide_eq_true_eq] at hdigit
    exact Or.inl hdigit
  next =>
    split at h
    next hlower => exact Or.inr (Or.inr hlower)
    next =>
      split at h
      next hupper => exact Or.inr (Or.inl hupper)
      next => cases h

theorem isAsciiSpace_of_hexVal {c : Char} {n : ℕ} (h : hexVal c = some n) :
    isAsciiSpace (.scalar c) = false := by
  have := hexVal_spec h
  show ((decide (9 ≤ c.toNat) && decide (c.toNat ≤ 13)) || decide (c.toNat = 32)) = false
  simp only [Bool.or_eq_false_iff, Bool.and_eq_false_iff, decide_eq_false_iff_not]
  omega

theorem HexOf.fromHex_eq {s : List Char} {data : Bytes} (h : HexOf s data) :
    fromHex (ofChars s) = some data := by
  induction h with
  | nil => rfl
  | @cons c d b s data hc hd h ih =>
      have hb : b.toNat / 16 * 16 + b.toNat % 16 = b.toNat := by omega
      rw [ofChars_cons, ofChars_cons, fromHex, isAsciiSpace_of_hexVal hc, digit16, digit16, hc, hd,
        if_neg Bool.false_ne_true]
      show (fromHex (ofChars s)).map _ = _
      rw [ih, Option.map_some, hb, UInt8.ofNat_toNat]

theorem HexOf.length_eq {s : List Char} {data : Bytes} (h : HexOf s data) :
    s.length = data.length * 2 := by
  induction h with
  | nil => rfl
  | cons hc hd h ih =>
      simp only [List.length_cons]
      omega

theorem HexOf.exists_hexVal {s : List Char} {data : Bytes} (h : HexOf s data) :
    ∀ c ∈ s, ∃ n, hexVal c = some n := by
  induction h with
  | nil => exact fun c hc => absurd hc List.not_mem_nil
  | cons hc hd h ih =>
      exact List.forall_mem_cons.mpr ⟨⟨_, hc⟩, List.forall_mem_cons.mpr ⟨⟨_, hd⟩, ih⟩⟩

/-- Digits are sextets too. -/
theorem exists_mapM_of_hexVal {s : List Char} (h : ∀ c ∈ s, ∃ n, hexVal c = some n) :
    ∃ ns, (ofChars s).mapM (fun c => ordSextet (ord c)) = some ns := by
  induction s with
  | nil => exact ⟨[], rfl⟩
  | cons c s ih =>
      obtain ⟨⟨m, hm⟩, hs⟩ := List.forall_mem_cons.mp h
      obtain ⟨ns, hns⟩ := ih hs
      have hc : ∃ n, ordSextet c.toNat = some n := by
        have := hexVal_spec hm
        rw [ordSextet]
        split
        · exact ⟨_, rfl⟩
        · split
          · exact ⟨_, rfl⟩
          · rw [if_pos (by omega)]
            exact ⟨_, rfl⟩
      obtain ⟨n, hn⟩ := hc
      refine ⟨n :: ns, ?_⟩
      rw [ofChars_cons, List.mapM_cons, ord, hn, hns]
      rfl

/-! ## White space around a string -/

/-- `c.isspace()`. -/
def CodePoint.isSpace : CodePoint → Bool
  | .scalar c => Python.isSpace c
  | .surrogate _ => false

/-- `s.strip()`. -/
def stripStr (s : PyStr) : PyStr :=
  (s.dropWhile CodePoint.isSpace).rdropWhile CodePoint.isSpace

/-- Neither the base64 alphabet nor the colon has white space in it. -/
theorem isSpace_eq_false {c : CodePoint} (h : 43 ≤ ord c ∧ ord c ≤ 122) : c.isSpace = false := by
  cases c with
  | surrogate s => rfl
  | scalar c =>
      rw [ord] at h
      rw [CodePoint.isSpace, ← Bool.not_eq_true]
      simp only [Python.isSpace, Bool.or_eq_true, Bool.and_eq_true, decide_eq_true_eq]
      omega

theorem dropWhile_append {α : Type} {p : α → Bool} {l t : List α} (hl : ∀ a ∈ l, p a = true)
    (ht : ∀ a ∈ t, p a = false) (r : List α) (hr : t ≠ []) :
    (l ++ (t ++ r)).dropWhile p = t ++ r := by
  rw [List.dropWhile_append_of_pos hl]
  cases t with
  | nil => exact absurd rfl hr
  | cons a t =>
      rw [List.cons_append, List.dropWhile_cons_of_neg]
      rw [ht a List.mem_cons_self]
      exact Bool.false_ne_true

/-- White space around a string goes. -/
theorem stripStr_append {s t t' : PyStr} (hs : ∀ c ∈ s, c.isSpace = false) (hne : s ≠ [])
    (ht : ∀ c ∈ t, c.isSpace = true) (ht' : ∀ c ∈ t', c.isSpace = true) :
    stripStr (t ++ (s ++ t')) = s := by
  have hrev := dropWhile_append (l := t'.reverse) (t := s.reverse)
    (fun c hc => ht' c (List.mem_reverse.mp hc)) (fun c hc => hs c (List.mem_reverse.mp hc)) []
    (fun h => hne (List.reverse_eq_nil_iff.mp h))
  rw [List.append_nil] at hrev
  rw [stripStr, dropWhile_append ht hs t' hne, List.rdropWhile, List.reverse_append, hrev,
    List.reverse_reverse]

end Python
