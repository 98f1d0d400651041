import Corrlog.Python.Reads

/-!
# `json.dumps`

The encoder with `ensure_ascii=True`.  The code uses it with the default
separators, `", "` and `": "`, and with the compact ones, `","` and `":"`: `sp`
is the white space after the comma and the colon.

What it writes for a value that has a canonical text is read back as the same
value with its tuples turned into lists (`reads_dumps`).
-/

namespace Python

/-! ## Strings -/

/-- One code point in ASCII. -/
def asciiEscape (c : CodePoint) : List Char :=
  let o := ord c
  if o = 0x22 then ['\\', '"']
  else if o = 0x5C then ['\\', '\\']
  else if o = 0x08 then ['\\', 'b']
  else if o = 0x0C then ['\\', 'f']
  else if o = 0x0A then ['\\', 'n']
  else if o = 0x0D then ['\\', 'r']
  else if o = 0x09 then ['\\', 't']
  else if 0x20 ≤ o ∧ o < 0x7F then [Char.ofNat o]
  else (utf16Units c).flatMap fun u => '\\' :: 'u' :: hexText u

/-- `encode_basestring_ascii`. -/
def asciiString (s : PyStr) : List Char := '"' :: (s.flatMap asciiEscape ++ ['"'])

/-! ## Numbers -/

/-- `int.__repr__`, which refuses to write more digits than it would read. -/
def intText (n : ℤ) : Except PyErr (List Char) :=
  if (Nat.toDigits 10 n.natAbs).length ≤ intMaxStrDigits then .ok (intRepr n)
  else builtinError .ValueError

/-- A float, with the names of the constants. -/
def floatText : Binary64 → List Char
  | .finite neg m => (finiteLit neg m.val).text
  | .inf false => ['I', 'n', 'f', 'i', 'n', 'i', 't', 'y']
  | .inf true => ['-', 'I', 'n', 'f', 'i', 'n', 'i', 't', 'y']
  | .nan => ['N', 'a', 'N']

/-- `true` or `false`. -/
def boolText (b : Bool) : List Char :=
  if b then ['t', 'r', 'u', 'e'] else ['f', 'a', 'l', 's', 'e']

/-- `null`. -/
def nullText : List Char := ['n', 'u', 'l', 'l']

/-! ## Values -/

/-- A key as a string. -/
def keyText : PyKey → Except PyErr PyStr
  | .str s => .ok s
  | .none => .ok (ofChars nullText)
  | .bool b => .ok (ofChars (boolText b))
  | .int n => (intText n).map ofChars
  | .float x => .ok (ofChars (floatText x))
  | .other _ => builtinError .TypeError

/-- One member. -/
def memberText (sp : List Char) (k : PyStr) (t : List Char) : List Char :=
  asciiString k ++ ':' :: (sp ++ t)

mutual

/-- `json.dumps(v)` with white space `sp` after commas and colons. -/
def dumps (sp : List Char) : PyValue → Except PyErr (List Char)
  | .none => .ok nullText
  | .bool b => .ok (boolText b)
  | .int n => intText n
  | .float x => .ok (floatText x)
  | .str s => .ok (asciiString s)
  | .list xs => (dumpsList sp xs).map fun ts => '[' :: (join (',' :: sp) ts ++ [']'])
  | .tuple xs => (dumpsList sp xs).map fun ts => '[' :: (join (',' :: sp) ts ++ [']'])
  | .dict items => (dumpsItems sp items).map fun ts => '{' :: (join (',' :: sp) ts ++ ['}'])
  | .other _ => builtinError .TypeError

/-- `json.dumps` of the elements of a list. -/
def dumpsList (sp : List Char) : List PyValue → Except PyErr (List (List Char))
  | [] => .ok []
  | x :: xs => do
      let t ← dumps sp x
      let ts ← dumpsList sp xs
      return t :: ts

/-- `json.dumps` of the members of a dict. -/
def dumpsItems (sp : List Char) : Items → Except PyErr (List (List Char))
  | [] => .ok []
  | (k, v) :: items => do
      let k ← keyText k
      let t ← dumps sp v
      let ts ← dumpsItems sp items
      return memberText sp k t :: ts

end

/-! ## What is read back -/

mutual

/-- The value with its tuples turned into lists. -/
def listed : PyValue → PyValue
  | .list xs => .list (listedList xs)
  | .tuple xs => .list (listedList xs)
  | .dict items => .dict (listedItems items)
  | v => v

/-- `listed` of every element. -/
def listedList : List PyValue → List PyValue
  | [] => []
  | x :: xs => listed x :: listedList xs

/-- `listed` of every value. -/
def listedItems : Items → Items
  | [] => []
  | (k, v) :: items => (k, listed v) :: listedItems items

end

theorem listedList_eq (xs : List PyValue) : listedList xs = xs.map listed := by
  induction xs with
  | nil => simp [listedList]
  | cons x xs ih => simp [listedList, ih]

theorem listedItems_eq (items : Items) :
    listedItems items = items.map fun kv => (kv.1, listed kv.2) := by
  induction items with
  | nil => simp [listedItems]
  | cons kv items ih => simp [listedItems, ih]

@[simp] theorem listed_list (xs : List PyValue) : listed (.list xs) = .list (xs.map listed) := by
  rw [listed, listedList_eq]

@[simp] theorem listed_tuple (xs : List PyValue) : listed (.tuple xs) = .list (xs.map listed) := by
  rw [listed, listedList_eq]

@[simp] theorem listed_dict (items : Items) :
    listed (.dict items) = .dict (items.map fun kv => (kv.1, listed kv.2)) := by
  rw [listed, listedItems_eq]

/-! ## Strings are read back -/

/-- The units `asciiEscape` spells. -/
def asciiUnits (c : CodePoint) : List StrUnit :=
  if ord c ∈ [8, 9, 10, 12, 13] ∨ (0x20 ≤ ord c ∧ ord c < 0x7F) then [.char (Char.ofNat (ord c))]
  else (utf16Units c).map .escape

/-- Escapes of four digits are read as the units they name. -/
theorem spells_utf16 {us : List ℕ} (h : ∀ u ∈ us, u < 0x10000) :
    Spells (us.flatMap fun u => '\\' :: 'u' :: hexText u) (us.map .escape) := by
  induction us with
  | nil => exact Spells.nil
  | cons u us ih =>
      rw [List.flatMap_cons, List.map_cons]
      exact (Spells.hexText (h u List.mem_cons_self)).append
        (ih fun w hw => h w (List.mem_cons_of_mem _ hw))

/-- The escapes of one character are read as its units. -/
theorem spells_asciiEscape (c : CodePoint) : Spells (asciiEscape c) (asciiUnits c) := by
  unfold asciiEscape
  dsimp only
  split
  next h => rw [asciiUnits, h]; exact Spells.short (by decide) rfl
  split
  next h => rw [asciiUnits, h]; exact Spells.short (by decide) rfl
  split
  next h => rw [asciiUnits, h]; exact Spells.short (by decide) rfl
  split
  next h => rw [asciiUnits, h]; exact Spells.short (by decide) rfl
  split
  next h => rw [asciiUnits, h]; exact Spells.short (by decide) rfl
  split
  next h => rw [asciiUnits, h]; exact Spells.short (by decide) rfl
  split
  next h => rw [asciiUnits, h]; exact Spells.short (by decide) rfl
  split
  next h22 h5c _ _ _ _ _ h =>
    rw [asciiUnits, if_pos (Or.inr h)]
    have hord : (Char.ofNat (ord c)).toNat = ord c := by
      have hv : (ord c).isValidChar := Or.inl (by omega)
      rw [Char.ofNat, dif_pos hv]
      rfl
    refine Spells.char ?_ ?_ (by omega)
    · intro he; rw [he] at hord; exact h22 hord.symm
    · intro he; rw [he] at hord; exact h5c hord.symm
  next h22 h5c h8 hc ha hd h9 h =>
    rw [asciiUnits, if_neg]
    · exact spells_utf16 (utf16Units_lt c)
    · simp only [List.mem_cons, List.not_mem_nil, or_false]
      omega

/-- No high surrogate stands directly before a low one. -/
def pairFree : PyStr → Bool
  | [] => true
  | [_] => true
  | c :: d :: s => !(isHigh (ord c) && isLow (ord d)) && pairFree (d :: s)

theorem isHigh_ord_scalar (c : Char) : isHigh (ord (.scalar c)) = false := by
  have := char_toNat_range c
  rw [isHigh, decide_eq_false_iff_not, ord]
  omega

/-- Only surrogates can make up a pair. -/
theorem pairFree_of_noSurrogates : ∀ {s : PyStr}, noSurrogates s = true → pairFree s = true
  | [], _ => rfl
  | [_], _ => rfl
  | c :: d :: s, h => by
      rw [noSurrogates_cons, Bool.and_eq_true] at h
      rw [pairFree, pairFree_of_noSurrogates h.2, Bool.and_true]
      cases c with
      | scalar c => rw [isHigh_ord_scalar, Bool.false_and, Bool.not_false]
      | surrogate s' => cases h.1

/-- The units do not start with an escaped low surrogate. -/
def NoLow (us : List StrUnit) : Prop := ∀ w us', us = .escape w :: us' → isLow w = false

/-- A unit stays alone if it starts no pair. -/
theorem joinPairs_escape {u : ℕ} {us : List StrUnit} (h : isHigh u = false ∨ NoLow us) :
    joinPairs (.escape u :: us) = chr u :: joinPairs us := by
  cases us with
  | nil => rfl
  | cons x us =>
      cases x with
      | char c => rfl
      | escape w =>
          have hb : (isHigh u && isLow w) = false := by
            rcases h with h | h
            · rw [h, Bool.false_and]
            · rw [h w us rfl, Bool.and_false]
          rw [joinPairs, hb]
          rfl

/-- The two halves of a character above U+FFFF are joined again. -/
theorem joinPair_utf16 {o : ℕ} (h1 : 0x10000 ≤ o) (h2 : o < 0x110000) :
    joinPair (0xD800 + (o - 0x10000) / 1024) (0xDC00 + (o - 0x10000) % 1024) = chr o := by
  have ho : 0x10000 + (0xD800 + (o - 0x10000) / 1024 - 0xD800) * 1024 +
      (0xDC00 + (o - 0x10000) % 1024 - 0xDC00) = o := by omega
  rw [joinPair, ho]

/-- The units of a character are read as the character. -/
theorem joinPairs_asciiUnits {c : CodePoint} {us : List StrUnit}
    (h : isHigh (ord c) = false ∨ NoLow us) :
    joinPairs (asciiUnits c ++ us) = c :: joinPairs us := by
  have hlt := ord_lt c
  unfold asciiUnits
  split
  next hc =>
    have hs : c = .scalar (Char.ofNat (ord c)) := by
      cases c with
      | scalar c => rw [ord, Char.ofNat_toNat]
      | surrogate s =>
          simp only [ord, List.mem_cons, List.not_mem_nil, or_false] at hc
          omega
    rw [List.cons_append, List.nil_append, joinPairs, ← hs]
  next hc =>
    unfold utf16Units
    dsimp only
    split
    next ho =>
      rw [List.map_cons, List.map_nil, List.cons_append, List.nil_append, joinPairs_escape h,
        chr_ord]
    next ho =>
      have hhi : isHigh (0xD800 + (ord c - 0x10000) / 1024) = true := by
        simp only [isHigh, decide_eq_true_eq]
        omega
      have hlo : isLow (0xDC00 + (ord c - 0x10000) % 1024) = true := by
        simp only [isLow, decide_eq_true_eq]
        omega
      rw [List.map_cons, List.map_cons, List.map_nil, List.cons_append, List.cons_append,
        List.nil_append, joinPairs, hhi, hlo, joinPair_utf16 (by omega) hlt, chr_ord]
      rfl

theorem noLow_asciiUnits {d : CodePoint} (hd : isLow (ord d) = false) (us : List StrUnit) :
    NoLow (asciiUnits d ++ us) := by
  have hlt := ord_lt d
  intro w us' h
  unfold asciiUnits at h
  split at h
  next => cases h
  next =>
    unfold utf16Units at h
    dsimp only at h
    split at h
    next =>
      simp only [List.map_cons, List.map_nil, List.cons_append, List.nil_append, List.cons.injEq,
        StrUnit.escape.injEq] at h
      rw [← h.1, hd]
    next =>
      simp only [List.map_cons, List.map_nil, List.cons_append, List.nil_append, List.cons.injEq,
        StrUnit.escape.injEq] at h
      simp only [isLow, decide_eq_false_iff_not]
      omega

/-- A string without adjacent halves is read back as it was. -/
theorem joinPairs_flatMap_asciiUnits :
    ∀ {s : PyStr}, pairFree s = true → joinPairs (s.flatMap asciiUnits) = s
  | [], _ => rfl
  | [c], _ => by
      rw [List.flatMap_cons, joinPairs_asciiUnits (Or.inr (by rintro w us' ⟨⟩))]
      rfl
  | c :: d :: s, h => by
      rw [pairFree, Bool.and_eq_true, Bool.not_eq_true', Bool.and_eq_false_iff] at h
      have ih := joinPairs_flatMap_asciiUnits h.2
      rw [List.flatMap_cons, joinPairs_asciiUnits, ih]
      rcases h.1 with hc | hd
      · exact Or.inl hc
      · rw [List.flatMap_cons]
        exact Or.inr (noLow_asciiUnits hd _)

/-- A string is read back, unless it spells an astral character by two surrogates. -/
theorem readsString_ascii {s : PyStr} (h : pairFree s = true) : ReadsString (asciiString s) s :=
  (Spells.flatMap fun c _ => spells_asciiEscape c).readsString (joinPairs_flatMap_asciiUnits h)

/-! ## Values are read back -/

/-- An integer within the binary64 range has few enough digits. -/
theorem length_toDigits_le {n : ℤ} (h : (Binary64.ofInt n).isFinite = true) :
    (Nat.toDigits 10 n.natAbs).length ≤ intMaxStrDigits := by
  rw [intMaxStrDigits, Nat.length_toDigits_le_iff (by decide) (by decide)]
  exact lt_of_lt_of_le (Binary64.natAbs_lt_of_isFinite h) (by decide +kernel)

/-- An integer of few enough digits is read back. -/
theorem litValue_intLit {n : ℤ} (h : (Nat.toDigits 10 n.natAbs).length ≤ intMaxStrDigits) :
    litValue (intLit n) = some (.int n) := by
  have hval : Nat.ofDigitChars 10 (intLit n).ip 0 = n.natAbs := Nat.ofDigitChars_ten_toDigits
  have hlen : (intLit n).ip.length ≤ intMaxStrDigits := h
  have hneg : (intLit n).neg = decide (n < 0) := rfl
  rw [litValue, if_pos ⟨rfl, rfl⟩, if_pos hlen, hval, hneg]
  by_cases hn : n < 0
  · simp only [hn, decide_true, if_true, Option.some.injEq, PyValue.int.injEq]
    omega
  · simp only [hn, decide_false, Bool.false_eq_true, if_false, Option.some.injEq,
      PyValue.int.injEq]
    omega

theorem litValue_float {l : NumLit} (h : l.fp ≠ [] ∨ l.ex ≠ none) :
    litValue l = some (.float l.double) := by
  rw [litValue, if_neg]
  rintro ⟨h1, h2⟩
  exact h.elim (· h1) (· h2)

/-- A decoder that makes a dict of members with distinct keys. -/
def Decoder.Plain (D : Decoder) : Prop :=
  ∀ kvs : List (PyStr × PyValue), (kvs.map Prod.fst).Nodup →
    D.object kvs = some (.dict (strItems kvs))

theorem setKey_of_notMem {k : PyKey} {v : PyValue} {items : Items}
    (h : k ∉ items.map Prod.fst) : setKey k v items = items ++ [(k, v)] := by
  induction items with
  | nil => rfl
  | cons kv items ih =>
      rw [List.map_cons, List.mem_cons, not_or] at h
      rw [setKey, if_neg (Ne.symm h.1), ih h.2, List.cons_append]

theorem Decoder.default_plain : Decoder.default.Plain := by
  have hfold : ∀ (kvs : List (PyStr × PyValue)) (d : Items), (kvs.map Prod.fst).Nodup →
      (∀ kv ∈ kvs, PyKey.str kv.1 ∉ d.map Prod.fst) →
      kvs.foldl (fun d kv => setKey (.str kv.1) kv.2 d) d = d ++ strItems kvs := by
    intro kvs
    induction kvs with
    | nil => intro d _ _; simp [strItems]
    | cons kv kvs ih =>
        intro d hnd hd
        rw [List.map_cons, List.nodup_cons] at hnd
        rw [List.foldl_cons, setKey_of_notMem (hd kv List.mem_cons_self), ih _ hnd.2]
        · simp [strItems]
        · intro kv' hkv'
          rw [List.map_append, List.mem_append, not_or]
          refine ⟨hd kv' (List.mem_cons_of_mem _ hkv'), ?_⟩
          simp only [List.map_cons, List.map_nil, List.mem_singleton, PyKey.str.injEq]
          rintro h
          exact hnd.1 (h ▸ List.mem_map.mpr ⟨kv', hkv', rfl⟩)
  intro kvs hnd
  rw [Decoder.default]
  dsimp only
  rw [hfold kvs [] hnd fun _ _ => List.not_mem_nil, List.nil_append]

section

variable {D : Decoder} {sp : List Char}

/-- Integers in the range of binary64 have few enough digits. -/
theorem Reads.int {n : ℤ} (h : (Binary64.ofInt n).isFinite = true) :
    Reads D (intRepr n) (.int n) :=
  Reads.number (intLit_valid n) (litValue_intLit (length_toDigits_le h))

/-- The shortest text of a float is read as the float. -/
theorem Reads.float {x : Binary64} (h : x.isFinite = true) : Reads D (floatText x) (.float x) := by
  cases x with
  | finite neg m =>
      obtain ⟨h1, h2, h3⟩ := finiteLit_spec neg m
      exact Reads.number h1 (by rw [litValue_float h3, h2])
  | inf neg => cases h
  | nan => cases h

theorem Reads.null : Reads D nullText .none :=
  Reads.name (n := (nullText, some .none)) List.mem_cons_self rfl

theorem Reads.bool (b : Bool) : Reads D (boolText b) (.bool b) := by
  cases b with
  | true =>
      exact Reads.name (n := (boolText true, some (.bool true))) (by simp [names, boolText]) rfl
  | false =>
      exact Reads.name (n := (boolText false, some (.bool false))) (by simp [names, boolText]) rfl

/-- The texts of the elements, by induction on the list. -/
theorem dumpsList_reads {xs : List PyValue}
    (ih : ∀ x ∈ xs, ∃ t, dumps sp x = .ok t ∧ Reads D t (listed x)) :
    ∃ ts, dumpsList sp xs = .ok ts ∧ List.Forall₂ (Reads D) ts (xs.map listed) := by
  induction xs with
  | nil => exact ⟨[], by rw [dumpsList], .nil⟩
  | cons x xs ih' =>
      obtain ⟨t, ht, hr⟩ := ih x List.mem_cons_self
      obtain ⟨ts, hts, hrs⟩ := ih' fun y hy => ih y (List.mem_cons_of_mem _ hy)
      exact ⟨t :: ts, by rw [dumpsList, ht, hts]; rfl, .cons hr hrs⟩

/-- The texts of the members, whose keys are strings without surrogates. -/
theorem dumpsItems_reads {kvs : List (PyStr × PyValue)}
    (hk : ∀ kv ∈ kvs, noSurrogates kv.1 = true)
    (ih : ∀ kv ∈ kvs, ∃ t, dumps sp kv.2 = .ok t ∧ Reads D t (listed kv.2)) :
    ∃ ts, dumpsItems sp (strItems kvs) = .ok ts ∧
      List.Forall₂ (ReadsMember D sp) ts (kvs.map fun kv => (kv.1, listed kv.2)) := by
  induction kvs with
  | nil => exact ⟨[], by rw [strItems, List.map_nil, dumpsItems], .nil⟩
  | cons kv kvs ih' =>
      obtain ⟨t, ht, hr⟩ := ih kv List.mem_cons_self
      obtain ⟨ts, hts, hrs⟩ := ih' (fun kv hkv => hk kv (List.mem_cons_of_mem _ hkv))
        fun kv hkv => ih kv (List.mem_cons_of_mem _ hkv)
      have hstr := readsString_ascii (pairFree_of_noSurrogates (hk kv List.mem_cons_self))
      refine ⟨memberText sp kv.1 t :: ts, ?_, .cons ⟨_, t, rfl, hstr, hr⟩ hrs⟩
      rw [strItems] at hts
      rw [strItems, List.map_cons, dumpsItems, keyText, ht, hts]
      rfl

/-- What `json.dumps` writes for a value with a canonical text is read back as
the value with its tuples turned into lists. -/
theorem reads_dumps (hD : D.Plain) (hsp : ∀ c ∈ sp, isWs c = true) {v : PyValue} (hwf : v.WF)
    (hj : v.JsonAble) : ∃ t, dumps sp v = .ok t ∧ Reads D t (listed v) := by
  induction v with
  | none => exact ⟨_, by rw [dumps], Reads.null⟩
  | bool b => exact ⟨_, by rw [dumps], Reads.bool b⟩
  | int n => exact ⟨_, by rw [dumps, intText, if_pos (length_toDigits_le hj)], Reads.int hj⟩
  | float x => exact ⟨_, by rw [dumps], Reads.float hj⟩
  | str s =>
      exact ⟨_, by rw [dumps], Reads.str (readsString_ascii (pairFree_of_noSurrogates hj))⟩
  | list xs ih =>
      rw [PyValue.wf_list] at hwf
      rw [PyValue.jsonAble_list] at hj
      obtain ⟨ts, hts, hrs⟩ := dumpsList_reads fun x hx => ih x hx (hwf x hx) (hj x hx)
      exact ⟨_, by rw [dumps, hts]; rfl, by rw [listed_list]; exact Reads.list hsp hrs⟩
  | tuple xs ih =>
      rw [PyValue.wf_tuple] at hwf
      rw [PyValue.jsonAble_tuple] at hj
      obtain ⟨ts, hts, hrs⟩ := dumpsList_reads fun x hx => ih x hx (hwf x hx) (hj x hx)
      exact ⟨_, by rw [dumps, hts]; rfl, by rw [listed_tuple]; exact Reads.list hsp hrs⟩
  | dict items ih =>
      obtain ⟨kvs, rfl, hkvs⟩ := PyValue.exists_strItems hj
      rw [PyValue.wf_dict, nodup_strItems] at hwf
      have hmem : ∀ kv ∈ kvs, (PyKey.str kv.1, kv.2) ∈ strItems kvs := fun kv hkv =>
        List.mem_map.mpr ⟨kv, hkv, rfl⟩
      obtain ⟨ts, hts, hrs⟩ := dumpsItems_reads (fun kv hkv => (hkvs kv hkv).1) fun kv hkv =>
        ih _ (hmem kv hkv) (hwf.2 _ (hmem kv hkv)) (hkvs kv hkv).2
      refine ⟨_, by rw [dumps, hts]; rfl, Reads.dict hsp hsp hrs ?_⟩
      rw [hD _ (by rw [List.map_map]; exact hwf.1), listed_dict, strItems, strItems,
        List.map_map, List.map_map]
      rfl
  | other o => exact absurd hj (PyValue.not_jsonAble_other o)

end

theorem forall₂_same_map {f : PyValue → PyValue} {xs : List PyValue}
    (h : ∀ x ∈ xs, PyValue.Same x (f x)) : List.Forall₂ PyValue.Same xs (xs.map f) := by
  rw [List.forall₂_map_right_iff, List.forall₂_same]
  exact h

/-- A list in the place of a tuple changes nothing that is signed. -/
theorem same_listed {v : PyValue} (h : v.JsonAble) : PyValue.Same v (listed v) := by
  induction v with
  | none => exact PyValue.same_refl h
  | bool b => exact PyValue.same_refl h
  | int n => exact PyValue.same_refl h
  | float x => exact PyValue.same_refl h
  | str s => exact PyValue.same_refl h
  | list xs ih =>
      rw [PyValue.jsonAble_list] at h
      rw [listed_list]
      exact PyValue.same_of_seq rfl rfl (forall₂_same_map fun x hx => ih x hx (h x hx))
  | tuple xs ih =>
      rw [PyValue.jsonAble_tuple] at h
      rw [listed_tuple]
      exact PyValue.same_of_seq rfl rfl (forall₂_same_map fun x hx => ih x hx (h x hx))
  | dict items ih =>
      rw [PyValue.jsonAble_dict] at h
      rw [listed_dict]
      refine PyValue.same_dict_iff.mpr ⟨_, rfl, fun kv hkv => ?_, fun k hk => ?_⟩
      · exact ⟨listed kv.2, List.mem_map.mpr ⟨kv, hkv, rfl⟩, ih kv hkv (h kv hkv).2⟩
      · rwa [List.map_map] at hk
  | other o => exact PyValue.same_refl h

theorem wf_listed {v : PyValue} (h : v.WF) : (listed v).WF := by
  induction v with
  | none => exact h
  | bool b => exact h
  | int n => exact h
  | float x => exact h
  | str s => exact h
  | list xs ih =>
      rw [PyValue.wf_list] at h
      rw [listed_list, PyValue.wf_list]
      exact List.forall_mem_map.mpr fun x hx => ih x hx (h x hx)
  | tuple xs ih =>
      rw [PyValue.wf_tuple] at h
      rw [listed_tuple, PyValue.wf_list]
      exact List.forall_mem_map.mpr fun x hx => ih x hx (h x hx)
  | dict items ih =>
      rw [PyValue.wf_dict] at h
      rw [listed_dict, PyValue.wf_dict, List.map_map]
      exact ⟨h.1, List.forall_mem_map.mpr fun kv hkv => ih kv hkv (h.2 kv hkv)⟩
  | other o => exact h

/-! ## The text is printable ASCII -/

/-- A printable ASCII character. -/
def asciiChar (c : Char) : Prop := 0x20 ≤ c.toNat ∧ c.toNat < 0x7F

instance (c : Char) : Decidable (asciiChar c) := inferInstanceAs (Decidable (_ ∧ _))

theorem forall_ascii {l : List Char} (h : l.all (fun c => decide (asciiChar c)) = true) :
    ∀ c ∈ l, asciiChar c := by simpa using h

theorem asciiChar_of_isDigit {c : Char} (h : c.isDigit = true) : asciiChar c := by
  have h' : 48 ≤ c.toNat ∧ c.toNat ≤ 57 := by
    simp only [Char.isDigit, Bool.and_eq_true, decide_eq_true_eq, ge_iff_le,
      UInt32.le_iff_toNat_le] at h
    exact h
  exact ⟨by omega, by omega⟩

/-- What is in a joined text is in the separator or in a piece. -/
theorem mem_join {sep : List Char} {c : Char} :
    ∀ {ts : List (List Char)}, c ∈ join sep ts → c ∈ sep ∨ ∃ t ∈ ts, c ∈ t
  | [], h => absurd h List.not_mem_nil
  | [t], h => Or.inr ⟨t, List.mem_cons_self, h⟩
  | t :: t' :: ts, h => by
      rcases List.mem_append.mp h with h | h
      · exact Or.inr ⟨t, List.mem_cons_self, h⟩
      · rcases List.mem_append.mp h with h | h
        · exact Or.inl h
        · exact (mem_join h).imp id fun ⟨u, hu, hc⟩ => ⟨u, List.mem_cons_of_mem _ hu, hc⟩

/-- The text of a container whose separators and items satisfy `P`. -/
theorem forall_join {P : Char → Prop} {sep : List Char} {ts : List (List Char)} {a b : Char}
    (ha : P a) (hb : P b) (hsep : ∀ c ∈ sep, P c) (hts : ∀ t ∈ ts, ∀ c ∈ t, P c) :
    ∀ c ∈ a :: (join sep ts ++ [b]), P c := by
  intro c hc
  rcases List.mem_cons.mp hc with rfl | hc
  · exact ha
  · rcases List.mem_append.mp hc with hc | hc
    · rcases mem_join hc with hc | ⟨t, ht, hc⟩
      · exact hsep c hc
      · exact hts t ht c hc
    · rw [List.mem_singleton.mp hc]
      exact hb

/-- The characters of a number: digits, signs, a point and an `e`. -/
theorem NumLit.Valid.forall_text {l : NumLit} (hl : l.Valid) {p : Char → Prop}
    (hdigit : ∀ c, c.isDigit → p c) (hsign : p '-' ∧ p '+') (hpoint : p '.') (hexp : p 'e') :
    ∀ c ∈ l.text, p c := by
  intro c hc
  simp only [NumLit.text, NumLit.body, List.mem_append] at hc
  rcases hc with hc | hc | hc | hc
  · rw [NumLit.signText] at hc
    split at hc
    · exact List.mem_singleton.mp hc ▸ hsign.1
    · cases hc
  · exact hdigit c (hl.ip_digits c hc)
  · rw [NumLit.fracText] at hc
    split at hc
    · cases hc
    · rcases List.mem_cons.mp hc with rfl | hc
      · exact hpoint
      · exact hdigit c (hl.fp_digits c hc)
  · cases hex : l.ex with
    | none => rw [hex] at hc; cases hc
    | some e =>
        obtain ⟨neg, ds⟩ := e
        rw [hex, NumLit.expText] at hc
        rcases List.mem_cons.mp hc with rfl | hc
        · exact hexp
        · rcases List.mem_cons.mp hc with rfl | hc
          · cases neg with
            | true => exact hsign.1
            | false => exact hsign.2
          · exact hdigit c ((hl.ex_shape neg ds hex).2 c hc)

theorem NumLit.Valid.ascii {l : NumLit} (hl : l.Valid) : ∀ c ∈ l.text, asciiChar c :=
  hl.forall_text (fun _ hc => asciiChar_of_isDigit hc) ⟨by decide, by decide⟩ (by decide)
    (by decide)

theorem hexText_ascii (u : ℕ) : ∀ c ∈ hexText u, asciiChar c := by
  have hdigit : ∀ n < 16, asciiChar (Nat.digitChar n) := by decide
  intro c hc
  simp only [hexText, List.mem_cons, List.not_mem_nil, or_false] at hc
  rcases hc with rfl | rfl | rfl | rfl <;> exact hdigit _ (Nat.mod_lt _ (by decide))

/-- `ensure_ascii` has this effect. -/
theorem asciiEscape_ascii (c : CodePoint) : ∀ x ∈ asciiEscape c, asciiChar x := by
  unfold asciiEscape
  dsimp only
  split
  next => exact forall_ascii rfl
  split
  next => exact forall_ascii rfl
  split
  next => exact forall_ascii rfl
  split
  next => exact forall_ascii rfl
  split
  next => exact forall_ascii rfl
  split
  next => exact forall_ascii rfl
  split
  next => exact forall_ascii rfl
  split
  next h =>
    intro x hx
    have hv : (ord c).isValidChar := Or.inl (by omega)
    rw [List.mem_singleton.mp hx, Char.ofNat, dif_pos hv]
    exact h
  next =>
    intro x hx
    obtain ⟨u, _, hx⟩ := List.mem_flatMap.mp hx
    rcases List.mem_cons.mp hx with rfl | hx
    · decide
    · rcases List.mem_cons.mp hx with rfl | hx
      · decide
      · exact hexText_ascii u x hx

theorem asciiString_ascii (s : PyStr) : ∀ c ∈ asciiString s, asciiChar c := by
  intro c hc
  rw [asciiString] at hc
  rcases List.mem_cons.mp hc with rfl | hc
  · decide
  · rcases List.mem_append.mp hc with hc | hc
    · obtain ⟨d, _, hc⟩ := List.mem_flatMap.mp hc
      exact asciiEscape_ascii d c hc
    · rw [List.mem_singleton.mp hc]
      decide

theorem intText_ascii {n : ℤ} {t : List Char} (h : intText n = .ok t) : ∀ c ∈ t, asciiChar c := by
  rw [intText] at h
  split at h
  · cases h
    exact (intLit_valid n).ascii
  · cases h

/-- The texts of floats, infinite ones and NaN among them. -/
theorem floatText_ascii (x : Binary64) : ∀ c ∈ floatText x, asciiChar c := by
  cases x with
  | finite neg m => exact (finiteLit_spec neg m).1.ascii
  | inf neg => cases neg <;> exact forall_ascii rfl
  | nan => exact forall_ascii rfl

theorem dumpsList_ascii {sp : List Char} {xs : List PyValue} {ts : List (List Char)}
    (ih : ∀ x ∈ xs, ∀ t, dumps sp x = .ok t → ∀ c ∈ t, asciiChar c)
    (h : dumpsList sp xs = .ok ts) : ∀ t ∈ ts, ∀ c ∈ t, asciiChar c := by
  induction xs generalizing ts with
  | nil =>
      rw [dumpsList] at h
      cases h
      exact fun _ ht => absurd ht List.not_mem_nil
  | cons x xs ih' =>
      rw [dumpsList] at h
      obtain ⟨t, ht, h⟩ := bind_eq_ok.mp h
      obtain ⟨us, hus, h⟩ := bind_eq_ok.mp h
      cases h
      exact List.forall_mem_cons.mpr ⟨ih x List.mem_cons_self t ht,
        ih' (fun y hy => ih y (List.mem_cons_of_mem _ hy)) hus⟩

theorem dumpsItems_ascii {sp : List Char} (hsp : ∀ c ∈ sp, asciiChar c) {items : Items}
    {ts : List (List Char)}
    (ih : ∀ kv ∈ items, ∀ t, dumps sp kv.2 = .ok t → ∀ c ∈ t, asciiChar c)
    (h : dumpsItems sp items = .ok ts) : ∀ t ∈ ts, ∀ c ∈ t, asciiChar c := by
  induction items generalizing ts with
  | nil =>
      rw [dumpsItems] at h
      cases h
      exact fun _ ht => absurd ht List.not_mem_nil
  | cons kv items ih' =>
      obtain ⟨k, v⟩ := kv
      rw [dumpsItems] at h
      obtain ⟨k', _, h⟩ := bind_eq_ok.mp h
      obtain ⟨t, ht, h⟩ := bind_eq_ok.mp h
      obtain ⟨us, hus, h⟩ := bind_eq_ok.mp h
      cases h
      refine List.forall_mem_cons.mpr ⟨fun c hc => ?_,
        ih' (fun kv hkv => ih kv (List.mem_cons_of_mem _ hkv)) hus⟩
      rcases List.mem_append.mp hc with hc | hc
      · exact asciiString_ascii k' c hc
      · rcases List.mem_cons.mp hc with rfl | hc
        · decide
        · rcases List.mem_append.mp hc with hc | hc
          · exact hsp c hc
          · exact ih _ List.mem_cons_self t ht c hc

/-- `json.dumps` writes printable ASCII. -/
theorem dumps_ascii {sp : List Char} (hsp : ∀ c ∈ sp, asciiChar c) {v : PyValue} {t : List Char}
    (h : dumps sp v = .ok t) : ∀ c ∈ t, asciiChar c := by
  have hsep : ∀ c ∈ ',' :: sp, asciiChar c := List.forall_mem_cons.mpr ⟨by decide, hsp⟩
  induction v generalizing t with
  | none => rw [dumps] at h; cases h; exact forall_ascii rfl
  | bool b => rw [dumps] at h; cases h; cases b <;> exact forall_ascii rfl
  | int n => rw [dumps] at h; exact intText_ascii h
  | float x => rw [dumps] at h; cases h; exact floatText_ascii x
  | str s => rw [dumps] at h; cases h; exact asciiString_ascii s
  | list xs ih =>
      rw [dumps] at h
      obtain ⟨ts, hts, rfl⟩ := map_eq_ok.mp h
      exact forall_join (by decide) (by decide) hsep
        (dumpsList_ascii (fun x hx t ht => ih x hx ht) hts)
  | tuple xs ih =>
      rw [dumps] at h
      obtain ⟨ts, hts, rfl⟩ := map_eq_ok.mp h
      exact forall_join (by decide) (by decide) hsep
        (dumpsList_ascii (fun x hx t ht => ih x hx ht) hts)
  | dict items ih =>
      rw [dumps] at h
      obtain ⟨ts, hts, rfl⟩ := map_eq_ok.mp h
      exact forall_join (by decide) (by decide) hsep
        (dumpsItems_ascii hsp (fun kv hkv t ht => ih kv hkv ht) hts)
  | other o => rw [dumps] at h; cases h

end Python
