import Corrlog.Python.Dumps
import Corrlog.Python.Lookup

/-!
# Writing JSON and reading it back

`json.dumps` writes more than JSON values: keys that are not strings become
strings, `NaN` has a name, surrogates are escaped one by one.  Whatever it writes,
`json.loads` reads, and what it reads is a function of the value (`reloaded`,
`reads_dumps_reloaded`).

A JSON value with string keys comes back with its tuples turned into lists if and
only if no string in it has a high surrogate directly before a low one: such two
come back as the character they spell (`pyEq_reloaded_iff`).
-/

namespace Python

/-! ## Strings -/

/-- The string that is read back: two surrogates that spell a character are it. -/
def joined (s : PyStr) : PyStr := joinPairs (s.flatMap asciiUnits)

/-- Any string is read back with its adjacent halves joined. -/
theorem readsString_joined (s : PyStr) : ReadsString (asciiString s) (joined s) :=
  (Spells.flatMap fun c _ => spells_asciiEscape c).readsString rfl

/-- A string without a pair of halves is left as it is. -/
theorem joined_eq {s : PyStr} (h : pairFree s = true) : joined s = s :=
  joinPairs_flatMap_asciiUnits h

/-- The two are a surrogate pair. -/
def isPair (c d : CodePoint) : Bool := isHigh (ord c) && isLow (ord d)

theorem asciiUnits_surrogate {c : CodePoint} (h : 0xD800 ≤ ord c ∧ ord c < 0xE000) :
    asciiUnits c = [.escape (ord c)] := by
  rw [asciiUnits, if_neg, utf16Units]
  · rw [if_pos (by omega)]
    rfl
  · simp only [List.mem_cons, List.not_mem_nil, or_false]
    omega

/-- A pair of halves becomes one character. -/
theorem joined_pair {c d : CodePoint} (h : isPair c d = true) (s : PyStr) :
    joined (c :: d :: s) = joinPair (ord c) (ord d) :: joined s := by
  have hpair := h
  rw [isPair, Bool.and_eq_true, isHigh, isLow, decide_eq_true_eq, decide_eq_true_eq] at h
  rw [joined, List.flatMap_cons, List.flatMap_cons, asciiUnits_surrogate (by omega),
    asciiUnits_surrogate (by omega), List.singleton_append, List.singleton_append, joinPairs]
  rw [isPair] at hpair
  rw [hpair]
  rfl

theorem joined_single (c : CodePoint) : joined [c] = [c] := by
  rw [joined, List.flatMap_cons, joinPairs_asciiUnits (Or.inr (by intro w us h; cases h))]
  rfl

/-- Any other code point is kept. -/
theorem joined_cons {c d : CodePoint} (h : isPair c d = false) (s : PyStr) :
    joined (c :: d :: s) = c :: joined (d :: s) := by
  rw [isPair, Bool.and_eq_false_iff] at h
  rw [joined, List.flatMap_cons, joinPairs_asciiUnits]
  · rfl
  · rcases h with hc | hd
    · exact Or.inl hc
    · rw [List.flatMap_cons]
      exact Or.inr (noLow_asciiUnits hd _)

/-- A pair spells no surrogate. -/
theorem isLow_joinPair {c d : CodePoint} (h : isPair c d = true) :
    isLow (ord (joinPair (ord c) (ord d))) = false ∧
      isHigh (ord (joinPair (ord c) (ord d))) = false := by
  rw [isPair, Bool.and_eq_true, isHigh, isLow, decide_eq_true_eq, decide_eq_true_eq] at h
  rw [joinPair, ord_chr (by omega)]
  exact ⟨decide_eq_false (by omega), decide_eq_false (by omega)⟩

/-- The first code point that is read back is the first one, or no surrogate. -/
theorem joined_head (d : CodePoint) (s : PyStr) :
    ∃ e t, joined (d :: s) = e :: t ∧ (e = d ∨ isLow (ord e) = false) := by
  cases s with
  | nil => exact ⟨d, [], joined_single d, Or.inl rfl⟩
  | cons d' s =>
      cases hp : isPair d d' with
      | true => exact ⟨_, _, joined_pair hp s, Or.inr (isLow_joinPair hp).1⟩
      | false => exact ⟨d, _, joined_cons hp s, Or.inl rfl⟩

theorem pairFree_cons {c : CodePoint} {t : PyStr} (ht : pairFree t = true)
    (h : ∀ e ∈ t.head?, isPair c e = false) : pairFree (c :: t) = true := by
  cases t with
  | nil => rfl
  | cons e t =>
      have hp := h e rfl
      rw [isPair] at hp
      rw [pairFree, hp, ht]
      rfl

/-- No pair is left. -/
theorem pairFree_joined (s : PyStr) : pairFree (joined s) = true := by
  induction hn : s.length using Nat.strong_induction_on generalizing s with
  | _ n ih =>
    cases s with
    | nil => rfl
    | cons c s =>
        cases s with
        | nil => rw [joined_single]; rfl
        | cons d s =>
            rw [List.length_cons, List.length_cons] at hn
            cases hp : isPair c d with
            | true =>
                rw [joined_pair hp]
                refine pairFree_cons (ih _ (by omega) s rfl) fun e _ => ?_
                rw [isPair, (isLow_joinPair hp).2]
                rfl
            | false =>
                rw [joined_cons hp]
                refine pairFree_cons (ih _ (by omega) (d :: s) (List.length_cons)) fun e he => ?_
                obtain ⟨e', t, ht, he'⟩ := joined_head d s
                rw [ht, List.head?_cons, Option.mem_some_iff] at he
                subst he
                rcases he' with rfl | he'
                · exact hp
                · rw [isPair, he', Bool.and_false]

/-- A string is left as it is only if it has no such pair. -/
theorem joined_eq_iff {s : PyStr} : joined s = s ↔ pairFree s = true :=
  ⟨fun h => h ▸ pairFree_joined s, joined_eq⟩

/-! ## Values -/

/-- The name a key is written with. -/
def keyName (k : PyKey) : PyStr := (keyText k).toOption.getD []

/-- The dict of members in order: a later one overrides an earlier one. -/
def merged (kvs : List (PyStr × PyValue)) : PyValue :=
  .dict (kvs.foldl (fun d kv => setKey (.str kv.1) kv.2 d) [])

mutual

/-- What `json.loads` makes of what `json.dumps` writes. -/
def reloaded : PyValue → PyValue
  | .str s => .str (joined s)
  | .list xs => .list (reloadedList xs)
  | .tuple xs => .list (reloadedList xs)
  | .dict items => merged (reloadedItems items)
  | v => v

/-- `reloaded` of every element. -/
def reloadedList : List PyValue → List PyValue
  | [] => []
  | x :: xs => reloaded x :: reloadedList xs

/-- `reloaded` of every value, under the key as it is read. -/
def reloadedItems : Items → List (PyStr × PyValue)
  | [] => []
  | (k, v) :: items => (joined (keyName k), reloaded v) :: reloadedItems items

end

theorem reloadedList_eq (xs : List PyValue) : reloadedList xs = xs.map reloaded := by
  induction xs with
  | nil => rw [reloadedList, List.map_nil]
  | cons x xs ih => rw [reloadedList, ih, List.map_cons]

theorem reloadedItems_eq (items : Items) :
    reloadedItems items = items.map fun kv => (joined (keyName kv.1), reloaded kv.2) := by
  induction items with
  | nil => rw [reloadedItems, List.map_nil]
  | cons kv items ih => rw [reloadedItems, ih, List.map_cons]

@[simp] theorem reloaded_list (xs : List PyValue) :
    reloaded (.list xs) = .list (xs.map reloaded) := by
  rw [reloaded, reloadedList_eq]

@[simp] theorem reloaded_tuple (xs : List PyValue) :
    reloaded (.tuple xs) = .list (xs.map reloaded) := by
  rw [reloaded, reloadedList_eq]

/-- Keys that become equal are merged, and the last value stays. -/
theorem reloaded_dict (items : Items) : reloaded (.dict items) =
    merged (items.map fun kv => (joined (keyName kv.1), reloaded kv.2)) := by
  rw [reloaded, reloadedItems_eq]

/-! ## What is written is read -/

section

variable {sp : List Char}

/-- An integer with a text is read back. -/
theorem Reads.intText {D : Decoder} {n : ℤ} {t : List Char} (h : Python.intText n = .ok t) :
    Reads D t (.int n) := by
  rw [Python.intText] at h
  split at h
  next hlen =>
    cases h
    exact Reads.number (intLit_valid n) (litValue_intLit hlen)
  next => cases h

/-- A float, also if it has a name. -/
theorem Reads.floatText (x : Binary64) : Reads .default (Python.floatText x) (.float x) := by
  cases x with
  | finite neg m => exact Reads.float rfl
  | inf neg =>
      cases neg with
      | false =>
          exact Reads.name (n := (Python.floatText (.inf false), some (.float (.inf false))))
            (by simp [names, Python.floatText, Decoder.default]) rfl
      | true =>
          exact Reads.name (n := (Python.floatText (.inf true), some (.float (.inf true))))
            (by simp [names, Python.floatText, Decoder.default]) rfl
  | nan =>
      exact Reads.name (n := (Python.floatText .nan, some (.float .nan)))
        (by simp [names, Python.floatText, Decoder.default]) rfl

/-- Each element is read as what it is reloaded to. -/
theorem dumpsList_reloaded {xs : List PyValue} {ts : List (List Char)}
    (ih : ∀ x ∈ xs, ∀ t, dumps sp x = .ok t → Reads .default t (reloaded x))
    (h : dumpsList sp xs = .ok ts) : List.Forall₂ (Reads .default) ts (xs.map reloaded) := by
  induction xs generalizing ts with
  | nil =>
      rw [dumpsList] at h
      cases h
      exact .nil
  | cons x xs ih' =>
      rw [dumpsList] at h
      obtain ⟨t, ht, h⟩ := bind_eq_ok.mp h
      obtain ⟨ts', hts, h⟩ := bind_eq_ok.mp h
      cases h
      exact .cons (ih x List.mem_cons_self t ht)
        (ih' (fun y hy => ih y (List.mem_cons_of_mem _ hy)) hts)

/-- Each member is read as what it is reloaded to. -/
theorem dumpsItems_reloaded {items : Items} {ts : List (List Char)}
    (ih : ∀ kv ∈ items, ∀ t, dumps sp kv.2 = .ok t → Reads .default t (reloaded kv.2))
    (h : dumpsItems sp items = .ok ts) :
    List.Forall₂ (ReadsMember .default sp) ts
      (items.map fun kv => (joined (keyName kv.1), reloaded kv.2)) := by
  induction items generalizing ts with
  | nil =>
      rw [dumpsItems] at h
      cases h
      exact .nil
  | cons kv items ih' =>
      obtain ⟨k, v⟩ := kv
      rw [dumpsItems] at h
      obtain ⟨name, hname, h⟩ := bind_eq_ok.mp h
      obtain ⟨t, ht, h⟩ := bind_eq_ok.mp h
      obtain ⟨ts', hts, h⟩ := bind_eq_ok.mp h
      cases h
      have hkey : keyName k = name := by rw [keyName, hname]; rfl
      refine .cons ⟨_, t, rfl, ?_, ih _ List.mem_cons_self t ht⟩
        (ih' (fun kv hkv => ih kv (List.mem_cons_of_mem _ hkv)) hts)
      show ReadsString (asciiString name) (joined (keyName k))
      rw [hkey]
      exact readsString_joined name

/-- Whatever `json.dumps` writes, `json.loads` reads. -/
theorem reads_dumps_reloaded (hsp : ∀ c ∈ sp, isWs c = true) {v : PyValue} {t : List Char}
    (h : dumps sp v = .ok t) : Reads .default t (reloaded v) := by
  induction v generalizing t with
  | none => rw [dumps] at h; cases h; exact Reads.null
  | bool b => rw [dumps] at h; cases h; exact Reads.bool b
  | int n => rw [dumps] at h; exact Reads.intText h
  | float x => rw [dumps] at h; cases h; exact Reads.floatText x
  | str s => rw [dumps] at h; cases h; exact Reads.str (readsString_joined s)
  | list xs ih =>
      rw [dumps] at h
      obtain ⟨ts, hts, rfl⟩ := map_eq_ok.mp h
      rw [reloaded_list]
      exact Reads.list hsp (dumpsList_reloaded (fun x hx t => ih x hx) hts)
  | tuple xs ih =>
      rw [dumps] at h
      obtain ⟨ts, hts, rfl⟩ := map_eq_ok.mp h
      rw [reloaded_tuple]
      exact Reads.list hsp (dumpsList_reloaded (fun x hx t => ih x hx) hts)
  | dict items ih =>
      rw [dumps] at h
      obtain ⟨ts, hts, rfl⟩ := map_eq_ok.mp h
      rw [reloaded_dict]
      exact Reads.dict hsp hsp (dumpsItems_reloaded (fun kv hkv t => ih kv hkv) hts) rfl
  | other o => rw [dumps] at h; cases h

end

/-! ## Values that can be written -/

/-- A key that `json.dumps` has a name for. -/
def PyKey.serializable : PyKey → Bool
  | .int n => decide ((Nat.toDigits 10 n.natAbs).length ≤ intMaxStrDigits)
  | .other _ => false
  | _ => true

mutual

/-- `json.dumps` has a text for the value. -/
def serializable : PyValue → Bool
  | .int n => decide ((Nat.toDigits 10 n.natAbs).length ≤ intMaxStrDigits)
  | .list xs => serializableList xs
  | .tuple xs => serializableList xs
  | .dict items => serializableItems items
  | .other _ => false
  | _ => true

/-- `serializable` of every element. -/
def serializableList : List PyValue → Bool
  | [] => true
  | x :: xs => serializable x && serializableList xs

/-- `serializable` of every member. -/
def serializableItems : Items → Bool
  | [] => true
  | (k, v) :: items => k.serializable && serializable v && serializableItems items

end

theorem serializableList_iff (xs : List PyValue) :
    serializableList xs = true ↔ ∀ x ∈ xs, serializable x = true := by
  induction xs with
  | nil => simp [serializableList]
  | cons x xs ih => simp [serializableList, ih]

theorem serializableItems_iff (items : Items) :
    serializableItems items = true ↔
      ∀ kv ∈ items, kv.1.serializable = true ∧ serializable kv.2 = true := by
  induction items with
  | nil => simp [serializableItems]
  | cons kv items ih => simp [serializableItems, ih, and_assoc]

/-- Integers with too many digits have no text. -/
theorem intText_eq_ok {n : ℤ} :
    (∃ t, intText n = .ok t) ↔ (Nat.toDigits 10 n.natAbs).length ≤ intMaxStrDigits := by
  rw [intText]
  split
  next h => exact iff_of_true ⟨_, rfl⟩ h
  next h =>
    refine iff_of_false ?_ h
    intro hok
    obtain ⟨t, ht⟩ := hok
    cases ht

/-- A key has a text unless it is of another type, or too long a number. -/
theorem keyText_eq_ok {k : PyKey} : (∃ s, keyText k = .ok s) ↔ k.serializable = true := by
  cases k with
  | int n =>
      rw [keyText, PyKey.serializable, decide_eq_true_eq, ← intText_eq_ok]
      constructor
      · intro hok
        obtain ⟨s, hs⟩ := hok
        obtain ⟨t, ht, _⟩ := map_eq_ok.mp hs
        exact ⟨t, ht⟩
      · intro hok
        obtain ⟨t, ht⟩ := hok
        exact ⟨_, map_eq_ok.mpr ⟨t, ht, rfl⟩⟩
  | other o =>
      refine iff_of_false ?_ Bool.false_ne_true
      intro hok
      obtain ⟨s, hs⟩ := hok
      cases hs
  | _ => exact iff_of_true ⟨_, rfl⟩ rfl

section

variable {sp : List Char}

/-- A list has a text if all its elements have one. -/
theorem dumpsList_eq_ok {xs : List PyValue} :
    (∃ ts, dumpsList sp xs = .ok ts) ↔ ∀ x ∈ xs, ∃ t, dumps sp x = .ok t := by
  induction xs with
  | nil => exact iff_of_true ⟨[], by rw [dumpsList]⟩ (List.forall_mem_nil _)
  | cons x xs ih =>
      rw [List.forall_mem_cons, ← ih, dumpsList]
      constructor
      · intro hok
        obtain ⟨ts, h⟩ := hok
        obtain ⟨t, ht, h⟩ := bind_eq_ok.mp h
        obtain ⟨ts', hts, _⟩ := bind_eq_ok.mp h
        exact ⟨⟨t, ht⟩, ts', hts⟩
      · intro hok
        obtain ⟨⟨t, ht⟩, ts, hts⟩ := hok
        exact ⟨t :: ts, bind_eq_ok.mpr ⟨t, ht, bind_eq_ok.mpr ⟨ts, hts, rfl⟩⟩⟩

/-- The members have, if their keys can be written and their values have a text. -/
theorem dumpsItems_eq_ok {items : Items} :
    (∃ ts, dumpsItems sp items = .ok ts) ↔
      ∀ kv ∈ items, kv.1.serializable = true ∧ ∃ t, dumps sp kv.2 = .ok t := by
  induction items with
  | nil => exact iff_of_true ⟨[], by rw [dumpsItems]⟩ (List.forall_mem_nil _)
  | cons kv items ih =>
      obtain ⟨k, v⟩ := kv
      rw [List.forall_mem_cons, ← ih, dumpsItems, ← keyText_eq_ok]
      constructor
      · intro hok
        obtain ⟨ts, h⟩ := hok
        obtain ⟨s, hs, h⟩ := bind_eq_ok.mp h
        obtain ⟨t, ht, h⟩ := bind_eq_ok.mp h
        obtain ⟨ts', hts, _⟩ := bind_eq_ok.mp h
        exact ⟨⟨⟨s, hs⟩, t, ht⟩, ts', hts⟩
      · intro hok
        obtain ⟨⟨⟨s, hs⟩, t, ht⟩, ts, hts⟩ := hok
        exact ⟨memberText sp s t :: ts,
          bind_eq_ok.mpr ⟨s, hs, bind_eq_ok.mpr ⟨t, ht, bind_eq_ok.mpr ⟨ts, hts, rfl⟩⟩⟩⟩

theorem exists_map_eq_ok {α β : Type} {x : Except PyErr α} {f : α → β} :
    (∃ b, x.map f = .ok b) ↔ ∃ a, x = .ok a := by
  constructor
  · intro hok
    obtain ⟨b, h⟩ := hok
    obtain ⟨a, ha, _⟩ := map_eq_ok.mp h
    exact ⟨a, ha⟩
  · intro hok
    obtain ⟨a, ha⟩ := hok
    exact ⟨f a, map_eq_ok.mpr ⟨a, ha, rfl⟩⟩

/-- `json.dumps` returns exactly for what is serializable. -/
theorem dumps_eq_ok (v : PyValue) : (∃ t, dumps sp v = .ok t) ↔ serializable v = true := by
  induction v with
  | int n => rw [dumps, serializable, decide_eq_true_eq, intText_eq_ok]
  | list xs ih =>
      rw [dumps, exists_map_eq_ok, dumpsList_eq_ok, serializable, serializableList_iff]
      exact forall₂_congr ih
  | tuple xs ih =>
      rw [dumps, exists_map_eq_ok, dumpsList_eq_ok, serializable, serializableList_iff]
      exact forall₂_congr ih
  | dict items ih =>
      rw [dumps, exists_map_eq_ok, dumpsItems_eq_ok, serializable, serializableItems_iff]
      exact forall₂_congr fun kv hkv => and_congr_right fun _ => ih kv hkv
  | other o =>
      refine iff_of_false ?_ Bool.false_ne_true
      intro hok
      obtain ⟨t, ht⟩ := hok
      rw [dumps] at ht
      cases ht
  | none => exact iff_of_true ⟨_, by rw [dumps]⟩ rfl
  | bool b => exact iff_of_true ⟨_, by rw [dumps]⟩ rfl
  | float x => exact iff_of_true ⟨_, by rw [dumps]⟩ rfl
  | str s => exact iff_of_true ⟨_, by rw [dumps]⟩ rfl

end

/-! ## JSON values -/

mutual

/-- A JSON value: string keys, integers within the binary64 range, finite floats.
`p` holds for its strings and its keys. -/
def jsonOf (p : PyStr → Bool) : PyValue → Bool
  | .none => true
  | .bool _ => true
  | .int n => (Binary64.ofInt n).isFinite
  | .float x => x.isFinite
  | .str s => p s
  | .list xs => jsonOfList p xs
  | .tuple xs => jsonOfList p xs
  | .dict items => jsonOfItems p items
  | .other _ => false

/-- `jsonOf` of every element. -/
def jsonOfList (p : PyStr → Bool) : List PyValue → Bool
  | [] => true
  | x :: xs => jsonOf p x && jsonOfList p xs

/-- `jsonOf` of every value, for keys that are strings as wanted. -/
def jsonOfItems (p : PyStr → Bool) : Items → Bool
  | [] => true
  | (.str k, v) :: items => p k && jsonOf p v && jsonOfItems p items
  | _ :: _ => false

end

/-- A JSON value whose strings and keys have the property. -/
def JsonOf (p : PyStr → Bool) (v : PyValue) : Prop := jsonOf p v = true

/-- Any string. -/
def anyText : PyStr → Bool := fun _ => true

section

variable {p : PyStr → Bool}

theorem jsonOfList_iff (xs : List PyValue) : jsonOfList p xs = true ↔ ∀ x ∈ xs, JsonOf p x := by
  induction xs with
  | nil => simp [jsonOfList]
  | cons x xs ih => simp [jsonOfList, ih, JsonOf]

theorem jsonOf_list (xs : List PyValue) : JsonOf p (.list xs) ↔ ∀ x ∈ xs, JsonOf p x :=
  jsonOfList_iff xs

theorem jsonOf_tuple (xs : List PyValue) : JsonOf p (.tuple xs) ↔ ∀ x ∈ xs, JsonOf p x :=
  jsonOfList_iff xs

/-- The condition on a dict is one on its keys and one on its values. -/
theorem jsonOf_strItems (kvs : List (PyStr × PyValue)) :
    JsonOf p (.dict (strItems kvs)) ↔ ∀ kv ∈ kvs, p kv.1 = true ∧ JsonOf p kv.2 := by
  show jsonOfItems p (strItems kvs) = true ↔ _
  induction kvs with
  | nil => simp [strItems, jsonOfItems]
  | cons kv kvs ih =>
      rw [strItems] at ih
      rw [strItems, List.map_cons, jsonOfItems, Bool.and_eq_true, Bool.and_eq_true, ih,
        List.forall_mem_cons]
      rfl

theorem exists_strItems_of_jsonOf {items : Items} (h : JsonOf p (.dict items)) :
    ∃ kvs, items = strItems kvs := by
  refine PyValue.exists_strItems_of_keys fun kv hkv => ?_
  have hitems : jsonOfItems p items = true := h
  clear h
  induction items with
  | nil => exact absurd hkv List.not_mem_nil
  | cons kv' items ih =>
      obtain ⟨k, v⟩ := kv'
      cases k with
      | str k =>
          rw [jsonOfItems, Bool.and_eq_true] at hitems
          rcases List.mem_cons.mp hkv with rfl | hkv
          · exact ⟨k, rfl⟩
          · exact ih hkv hitems.2
      | none => cases hitems
      | bool b => cases hitems
      | int n => cases hitems
      | float x => cases hitems
      | other o => cases hitems

theorem listed_strItems (kvs : List (PyStr × PyValue)) : listed (.dict (strItems kvs)) =
    .dict (strItems (kvs.map fun kv => (kv.1, listed kv.2))) := by
  rw [listed_dict, strItems, strItems, List.map_map, List.map_map]
  rfl

theorem reloaded_strItems (kvs : List (PyStr × PyValue)) : reloaded (.dict (strItems kvs)) =
    merged (kvs.map fun kv => (joined kv.1, reloaded kv.2)) := by
  rw [reloaded_dict, strItems, List.map_map]
  rfl

/-- Nothing is merged if the keys are distinct. -/
theorem merged_of_nodup {kvs : List (PyStr × PyValue)} (h : (kvs.map Prod.fst).Nodup) :
    merged kvs = .dict (strItems kvs) := Option.some.inj (Decoder.default_plain kvs h)

/-- The keys of the merged members. -/
theorem merged_keys (kvs : List (PyStr × PyValue)) : ∃ items, merged kvs = .dict items ∧
    (items.map Prod.fst).Nodup ∧ ∀ k ∈ items.map Prod.fst, ∃ kv ∈ kvs, k = .str kv.1 := by
  refine ⟨_, rfl, ?_⟩
  induction kvs using List.reverseRecOn with
  | nil => exact ⟨List.nodup_nil, fun k hk => absurd hk List.not_mem_nil⟩
  | append_singleton kvs kv ih =>
      rw [List.foldl_append, List.foldl_cons, List.foldl_nil]
      refine ⟨nodup_setKey ih.1, fun k hk => ?_⟩
      rcases mem_keys_setKey.mp hk with rfl | hk
      · exact ⟨kv, List.mem_append_right _ List.mem_cons_self, rfl⟩
      · obtain ⟨kv', hkv', he⟩ := ih.2 k hk
        exact ⟨kv', List.mem_append_left _ hkv', he⟩

/-! ## What comes back unchanged -/

/-- The members of a well-formed dict. -/
theorem wf_strItems {kvs : List (PyStr × PyValue)} (h : (PyValue.dict (strItems kvs)).WF) :
    (kvs.map Prod.fst).Nodup ∧ ∀ kv ∈ kvs, kv.2.WF := by
  rw [PyValue.wf_dict, nodup_strItems] at h
  exact ⟨h.1, fun kv hkv => h.2 _ (PyValue.mem_strItems.mpr hkv)⟩

theorem map_reloaded {xs : List PyValue} (h : ∀ x ∈ xs, reloaded x = listed x) :
    xs.map reloaded = xs.map listed := List.map_congr_left h

/-- Without adjacent halves, reloading only makes lists of tuples. -/
theorem reloaded_eq_listed {v : PyValue} (hwf : v.WF) (h : JsonOf pairFree v) :
    reloaded v = listed v := by
  induction v with
  | str s =>
      show PyValue.str (joined s) = .str s
      rw [joined_eq h]
  | list xs ih =>
      rw [PyValue.wf_list] at hwf
      rw [jsonOf_list] at h
      rw [reloaded_list, listed_list, map_reloaded fun x hx => ih x hx (hwf x hx) (h x hx)]
  | tuple xs ih =>
      rw [PyValue.wf_tuple] at hwf
      rw [jsonOf_tuple] at h
      rw [reloaded_tuple, listed_tuple, map_reloaded fun x hx => ih x hx (hwf x hx) (h x hx)]
  | dict items ih =>
      obtain ⟨kvs, rfl⟩ := exists_strItems_of_jsonOf h
      obtain ⟨hnd, hvals⟩ := wf_strItems hwf
      rw [jsonOf_strItems] at h
      have hmap : kvs.map (fun kv => (joined kv.1, reloaded kv.2)) =
          kvs.map fun kv => (kv.1, listed kv.2) := by
        refine List.map_congr_left fun kv hkv => ?_
        rw [joined_eq (h kv hkv).1,
          ih _ (PyValue.mem_strItems.mpr hkv) (hvals kv hkv) (h kv hkv).2]
      rw [reloaded_strItems, listed_strItems, hmap, merged_of_nodup]
      rw [List.map_map]
      exact hnd
  | other o => cases h
  | _ => rfl

theorem pyEqList_map {f g : PyValue → PyValue} (xs : List PyValue) :
    PyValue.pyEqList (xs.map f) (xs.map g) = true ↔ ∀ x ∈ xs, PyValue.pyEq (f x) (g x) = true := by
  induction xs with
  | nil => exact iff_of_true rfl (List.forall_mem_nil _)
  | cons x xs ih =>
      rw [List.map_cons, List.map_cons, PyValue.pyEqList, Bool.and_eq_true, ih,
        List.forall_mem_cons]

/-- Every float but NaN is equal to itself. -/
theorem floatEq_self {x : Binary64} (h : x.isFinite = true) : PyValue.floatEq x x = true := by
  rw [PyValue.floatEq, Bool.and_eq_true, decide_eq_true_eq, decide_eq_true_eq]
  refine ⟨?_, rfl⟩
  rintro rfl
  cases h

/-- A JSON value is equal to itself. -/
theorem pyEq_listed {v : PyValue} (hwf : v.WF) (h : JsonOf p v) :
    PyValue.pyEq (listed v) (listed v) = true := by
  induction v with
  | none => rfl
  | bool b => exact beq_self_eq_true b
  | int n => exact decide_eq_true rfl
  | float x => exact floatEq_self h
  | str s => exact decide_eq_true rfl
  | list xs ih =>
      rw [PyValue.wf_list] at hwf
      rw [jsonOf_list] at h
      rw [listed_list, PyValue.pyEq, pyEqList_map]
      exact fun x hx => ih x hx (hwf x hx) (h x hx)
  | tuple xs ih =>
      rw [PyValue.wf_tuple] at hwf
      rw [jsonOf_tuple] at h
      rw [listed_tuple, PyValue.pyEq, pyEqList_map]
      exact fun x hx => ih x hx (hwf x hx) (h x hx)
  | dict items ih =>
      obtain ⟨kvs, rfl⟩ := exists_strItems_of_jsonOf h
      obtain ⟨hnd, hvals⟩ := wf_strItems hwf
      rw [jsonOf_strItems] at h
      rw [listed_strItems, PyValue.pyEq, Bool.and_eq_true, decide_eq_true_eq,
        PyValue.pyEqItems_iff]
      refine ⟨rfl, fun kv hkv => ⟨kv.2, getKey_of_mem ?_ hkv, ?_⟩⟩
      · rw [nodup_strItems, List.map_map]
        exact hnd
      · rw [strItems, List.map_map] at hkv
        obtain ⟨kv', hkv', rfl⟩ := List.mem_map.mp hkv
        exact ih _ (PyValue.mem_strItems.mpr hkv') (hvals kv' hkv') (h kv' hkv').2
  | other o => cases h

/-- Two dicts that Python calls equal have the same keys. -/
theorem keys_of_pyEq {items items' : Items} (hnd : (items.map Prod.fst).Nodup)
    (h : PyValue.pyEq (.dict items) (.dict items') = true) :
    ∀ k ∈ items'.map Prod.fst, k ∈ items.map Prod.fst := by
  rw [PyValue.pyEq, Bool.and_eq_true, decide_eq_true_eq, PyValue.pyEqItems_iff] at h
  have hsub : items.map Prod.fst ⊆ items'.map Prod.fst := by
    intro k hk
    obtain ⟨kv, hkv, rfl⟩ := List.mem_map.mp hk
    obtain ⟨w, hg, _⟩ := h.2 kv hkv
    exact List.mem_map.mpr ⟨_, mem_of_getKey hg, rfl⟩
  have hperm := (hnd.subperm hsub).perm_of_length_le
    (by rw [List.length_map, List.length_map, h.1])
  exact fun k hk => hperm.mem_iff.mpr hk

/-- Keys that come back are the keys that were written, and they have no pairs. -/
theorem pairFree_keys_of_pyEq {kvs : List (PyStr × PyValue)}
    (h : PyValue.pyEq (merged (kvs.map fun kv => (joined kv.1, reloaded kv.2)))
      (.dict (strItems (kvs.map fun kv => (kv.1, listed kv.2)))) = true) :
    ∀ kv ∈ kvs, pairFree kv.1 = true := by
  intro kv hkv
  obtain ⟨items, hitems, hnd, hkeys⟩ :=
    merged_keys (kvs.map fun kv => (joined kv.1, reloaded kv.2))
  rw [hitems] at h
  have hmem : PyKey.str kv.1 ∈ items.map Prod.fst := by
    refine keys_of_pyEq hnd h _ (List.mem_map.mpr ⟨(.str kv.1, listed kv.2), ?_, rfl⟩)
    exact PyValue.mem_strItems.mpr (List.mem_map.mpr ⟨kv, hkv, rfl⟩)
  obtain ⟨_, hm, he⟩ := hkeys _ hmem
  obtain ⟨kv', _, rfl⟩ := List.mem_map.mp hm
  rw [PyKey.str.inj he]
  exact pairFree_joined _

/-- A value that comes back equal has no surrogate pair. -/
theorem pairFree_of_pyEq {v : PyValue} (hwf : v.WF) (hj : JsonOf anyText v)
    (h : PyValue.pyEq (reloaded v) (listed v) = true) : JsonOf pairFree v := by
  induction v with
  | str s =>
      have hs : PyValue.pyEq (.str (joined s)) (.str s) = true := h
      exact joined_eq_iff.mp (PyValue.str.inj (PyValue.pyEq_str_iff.mp hs))
  | list xs ih =>
      rw [PyValue.wf_list] at hwf
      rw [jsonOf_list] at hj ⊢
      rw [reloaded_list, listed_list, PyValue.pyEq, pyEqList_map] at h
      exact fun x hx => ih x hx (hwf x hx) (hj x hx) (h x hx)
  | tuple xs ih =>
      rw [PyValue.wf_tuple] at hwf
      rw [jsonOf_tuple] at hj ⊢
      rw [reloaded_tuple, listed_tuple, PyValue.pyEq, pyEqList_map] at h
      exact fun x hx => ih x hx (hwf x hx) (hj x hx) (h x hx)
  | dict items ih =>
      obtain ⟨kvs, rfl⟩ := exists_strItems_of_jsonOf hj
      obtain ⟨hnd, hvals⟩ := wf_strItems hwf
      rw [jsonOf_strItems] at hj
      rw [reloaded_strItems, listed_strItems] at h
      have hfree := pairFree_keys_of_pyEq h
      have hmap : kvs.map (fun kv => (joined kv.1, reloaded kv.2)) =
          kvs.map fun kv => (kv.1, reloaded kv.2) :=
        List.map_congr_left fun kv hkv => by rw [joined_eq (hfree kv hkv)]
      rw [hmap, merged_of_nodup (by rw [List.map_map]; exact hnd), PyValue.pyEq, Bool.and_eq_true,
        PyValue.pyEqItems_iff] at h
      rw [jsonOf_strItems]
      refine fun kv hkv => ⟨hfree kv hkv, ?_⟩
      have hmem : (PyKey.str kv.1, reloaded kv.2) ∈
          strItems (kvs.map fun kv => (kv.1, reloaded kv.2)) :=
        PyValue.mem_strItems.mpr (List.mem_map.mpr ⟨kv, hkv, rfl⟩)
      obtain ⟨w, hw, heq⟩ := h.2 _ hmem
      have hlisted : getKey (.str kv.1) (strItems (kvs.map fun kv => (kv.1, listed kv.2))) =
          some (listed kv.2) := by
        refine getKey_of_mem ?_ (PyValue.mem_strItems.mpr (List.mem_map.mpr ⟨kv, hkv, rfl⟩))
        rw [nodup_strItems, List.map_map]
        exact hnd
      cases hlisted.symm.trans hw
      exact ih _ (PyValue.mem_strItems.mpr hkv) (hvals kv hkv) (hj kv hkv).2 heq
  | other o => cases hj
  | none => rfl
  | bool b => rfl
  | int n => exact hj
  | float x => exact hj

/-- A JSON value comes back equal, with tuples as lists, if and only if none of its
strings has a surrogate pair. -/
theorem pyEq_reloaded_iff {v : PyValue} (hwf : v.WF) (hj : JsonOf anyText v) :
    PyValue.pyEq (reloaded v) (listed v) = true ↔ JsonOf pairFree v := by
  refine ⟨pairFree_of_pyEq hwf hj, fun h => ?_⟩
  rw [reloaded_eq_listed hwf h]
  exact pyEq_listed hwf h

/-- A JSON value can be written. -/
theorem serializable_of_jsonOf {v : PyValue} (h : JsonOf p v) : serializable v = true := by
  induction v with
  | int n => exact decide_eq_true (length_toDigits_le h)
  | list xs ih =>
      rw [jsonOf_list] at h
      rw [serializable, serializableList_iff]
      exact fun x hx => ih x hx (h x hx)
  | tuple xs ih =>
      rw [jsonOf_tuple] at h
      rw [serializable, serializableList_iff]
      exact fun x hx => ih x hx (h x hx)
  | dict items ih =>
      obtain ⟨kvs, rfl⟩ := exists_strItems_of_jsonOf h
      rw [jsonOf_strItems] at h
      rw [serializable, serializableItems_iff]
      intro kv hkv
      obtain ⟨kv', hkv', rfl⟩ := List.mem_map.mp hkv
      exact ⟨rfl, ih _ hkv (h kv' hkv').2⟩
  | other o => cases h
  | _ => rfl

end

end Python
