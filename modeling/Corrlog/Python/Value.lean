import Corrlog.Binary64.Decimal
import Corrlog.Python.Str

/-!
# Python values

The values a record is built from: `None`, `bool`, `int`, `float`, `str`,
`list`, `tuple`, `dict`, and values of any other type, of which what the code
asks for is kept (`Foreign`).  A dict is the list of its items in insertion
order.

What CPython guarantees of every dict, that its keys are distinct, is the
predicate `WF`, at every depth.  `PyObject` bundles a value with it.
-/

namespace Python

/-! ## Exceptions -/

/-- The exception classes the code raises or meets. -/
inductive ExcType where
  | ValueError
  | TypeError
  | AttributeError
  | KeyError
  | IndexError
  | OverflowError
  | UnicodeError
  | InvalidSignature
  | ValidationError
  | OperationalError
  | IntegrityError
deriving DecidableEq

/-- A raised exception.  The text is kept for the raise statements of the
repository and empty for the interpreter's own. -/
structure PyErr where
  exc : ExcType
  text : PyStr
deriving DecidableEq

/-- `raise exc(text)`. -/
def raise {α : Type} (exc : ExcType) (text : String) : Except PyErr α := .error ⟨exc, lit text⟩

/-- An exception of the interpreter itself. -/
def builtinError {α : Type} (exc : ExcType) : Except PyErr α := .error ⟨exc, []⟩

section

variable {ε α β : Type}

/-- A sequence returns if both parts do. -/
theorem bind_eq_ok {x : Except ε α} {f : α → Except ε β} {b : β} :
    (x >>= f) = .ok b ↔ ∃ a, x = .ok a ∧ f a = .ok b := by
  cases x with
  | error e => exact ⟨(nomatch ·), fun ⟨_, h, _⟩ => nomatch h⟩
  | ok a => exact ⟨fun h => ⟨a, rfl, h⟩, fun ⟨_, h, h'⟩ => by cases h; exact h'⟩

/-- A pure step after it raises nothing. -/
theorem map_eq_ok {x : Except ε α} {f : α → β} {b : β} :
    x.map f = .ok b ↔ ∃ a, x = .ok a ∧ f a = b := by
  cases x with
  | error e => exact ⟨(nomatch ·), fun ⟨_, h, _⟩ => nomatch h⟩
  | ok a => exact ⟨fun h => ⟨a, rfl, Except.ok.inj h⟩, fun ⟨_, h, h'⟩ => by cases h; rw [← h']; rfl⟩

/-- A loop returns if it does for every element, in order. -/
theorem mapM_eq_ok {f : α → Except ε β} {l : List α} {out : List β} :
    l.mapM f = .ok out ↔ List.Forall₂ (fun a b => f a = .ok b) l out := by
  induction l generalizing out with
  | nil =>
      rw [List.mapM_nil, List.forall₂_nil_left_iff]
      exact ⟨fun h => (Except.ok.inj h).symm, fun h => by rw [h]; rfl⟩
  | cons a l ih =>
      rw [List.mapM_cons, List.forall₂_cons_left_iff]
      constructor
      · intro h
        obtain ⟨b, hb, h⟩ := bind_eq_ok.mp h
        obtain ⟨bs, hbs, h⟩ := bind_eq_ok.mp h
        exact ⟨b, bs, hb, ih.mp hbs, (Except.ok.inj h).symm⟩
      · rintro ⟨b, bs, hb, hbs, rfl⟩
        exact bind_eq_ok.mpr ⟨b, hb, bind_eq_ok.mpr ⟨bs, ih.mpr hbs, rfl⟩⟩

end

/-! ## Values -/

/-- An object of any other type: its identity, the name of its type, `str()` of
it (absent if that raises) and its truth value. -/
structure Foreign where
  id : ℕ
  typeName : PyStr
  str : Option PyStr
  truthy : Bool
deriving DecidableEq

/-- A dict key. -/
inductive PyKey where
  | str (s : PyStr)
  | none
  | bool (b : Bool)
  | int (n : ℤ)
  | float (x : Binary64)
  | other (o : Foreign)
deriving DecidableEq

/-- A Python value. -/
inductive PyValue where
  | none
  | bool (b : Bool)
  | int (n : ℤ)
  | float (x : Binary64)
  | str (s : PyStr)
  | list (xs : List PyValue)
  | tuple (xs : List PyValue)
  | dict (items : List (PyKey × PyValue))
  | other (o : Foreign)

/-- The items of a dict, in insertion order. -/
abbrev Items := List (PyKey × PyValue)

namespace PyValue

/-- Induction on values, with the hypothesis for the elements of a container. -/
@[elab_as_elim, induction_eliminator]
theorem inductOn {motive : PyValue → Prop} (none : motive .none) (bool : ∀ b, motive (.bool b))
    (int : ∀ n, motive (.int n)) (float : ∀ x, motive (.float x)) (str : ∀ s, motive (.str s))
    (list : ∀ xs, (∀ x ∈ xs, motive x) → motive (.list xs))
    (tuple : ∀ xs, (∀ x ∈ xs, motive x) → motive (.tuple xs))
    (dict : ∀ items : Items, (∀ kv ∈ items, motive kv.2) → motive (.dict items))
    (other : ∀ o, motive (.other o)) (v : PyValue) : motive v :=
  @PyValue.rec motive (fun xs => ∀ x ∈ xs, motive x) (fun items => ∀ kv ∈ items, motive kv.2)
    (fun kv => motive kv.2) none bool int float str list tuple dict other
    (fun _ h => absurd h List.not_mem_nil)
    (fun _ _ hx hxs _ h => (List.mem_cons.mp h).elim (fun e => e ▸ hx) (hxs _))
    (fun _ h => absurd h List.not_mem_nil)
    (fun _ _ hx hxs _ h => (List.mem_cons.mp h).elim (fun e => e ▸ hx) (hxs _))
    (fun _ _ h => h) v

/-! ## Well-formed values -/

mutual

/-- Every dict has distinct keys. -/
def wf : PyValue → Bool
  | .list xs => wfList xs
  | .tuple xs => wfList xs
  | .dict items => decide (items.map Prod.fst).Nodup && wfItems items
  | _ => true

/-- Every value of the list is well-formed. -/
def wfList : List PyValue → Bool
  | [] => true
  | x :: xs => wf x && wfList xs

/-- So is every value of the items. -/
def wfItems : Items → Bool
  | [] => true
  | (_, v) :: items => wf v && wfItems items

end

/-- Every dict has distinct keys. -/
def WF (v : PyValue) : Prop := v.wf = true

instance (v : PyValue) : Decidable v.WF := inferInstanceAs (Decidable (v.wf = true))

theorem wfList_iff (xs : List PyValue) : wfList xs = true ↔ ∀ x ∈ xs, WF x := by
  induction xs with
  | nil => simp [wfList]
  | cons x xs ih => simp [wfList, ih, WF]

theorem wfItems_iff (items : Items) : wfItems items = true ↔ ∀ kv ∈ items, WF kv.2 := by
  induction items with
  | nil => simp [wfItems]
  | cons kv items ih => simp [wfItems, ih, WF]

@[simp] theorem wf_list (xs : List PyValue) : WF (.list xs) ↔ ∀ x ∈ xs, WF x := wfList_iff xs

@[simp] theorem wf_tuple (xs : List PyValue) : WF (.tuple xs) ↔ ∀ x ∈ xs, WF x := wfList_iff xs

/-- A dict has distinct keys, and so have the dicts in it. -/
@[simp] theorem wf_dict (items : Items) :
    WF (.dict items) ↔ (items.map Prod.fst).Nodup ∧ ∀ kv ∈ items, WF kv.2 := by
  rw [WF, wf, Bool.and_eq_true, decide_eq_true_eq, wfItems_iff]

@[simp] theorem wf_none : WF .none := rfl

@[simp] theorem wf_bool (b : Bool) : WF (.bool b) := rfl

@[simp] theorem wf_int (n : ℤ) : WF (.int n) := rfl

@[simp] theorem wf_float (x : Binary64) : WF (.float x) := rfl

@[simp] theorem wf_str (s : PyStr) : WF (.str s) := rfl

@[simp] theorem wf_other (o : Foreign) : WF (.other o) := rfl

end PyValue

/-- A Python value as it can exist: every dict in it has distinct keys. -/
structure PyObject where
  val : PyValue
  wf : val.WF

/-- Well-formed values are equal if they are the same value. -/
theorem PyObject.val_inj {v w : PyObject} : v.val = w.val ↔ v = w := by
  obtain ⟨v, hv⟩ := v
  rw [PyObject.mk.injEq]

/-- `None`. -/
def PyObject.none : PyObject := ⟨.none, rfl⟩

/-- A string literal. -/
def PyObject.str (s : String) : PyObject := ⟨.str (lit s), rfl⟩

/-! ## Dict operations -/

/-- The value of a key. -/
def getKey (k : PyKey) : Items → Option PyValue
  | [] => none
  | (k', v) :: items => if k' = k then some v else getKey k items

/-- `d[k] = v`: a known key keeps its place, a new one comes last. -/
def setKey (k : PyKey) (v : PyValue) : Items → Items
  | [] => [(k, v)]
  | (k', v') :: items => if k' = k then (k, v) :: items else (k', v') :: setKey k v items

/-- A lookup fails exactly for keys that are not there. -/
theorem getKey_eq_none_iff {k : PyKey} {items : Items} :
    getKey k items = none ↔ k ∉ items.map Prod.fst := by
  induction items with
  | nil => simp [getKey]
  | cons kv items ih =>
      obtain ⟨k', v⟩ := kv
      by_cases h : k' = k
      · simp [getKey, h]
      · simp [getKey, h, ih, Ne.symm h]

theorem mem_of_getKey {k : PyKey} {v : PyValue} {items : Items} (h : getKey k items = some v) :
    (k, v) ∈ items := by
  induction items with
  | nil => cases h
  | cons kv items ih =>
      obtain ⟨k', v'⟩ := kv
      by_cases hk : k' = k
      · rw [getKey, if_pos hk, Option.some.injEq] at h
        rw [hk, h]
        exact List.mem_cons_self
      · rw [getKey, if_neg hk] at h
        exact List.mem_cons_of_mem _ (ih h)

/-- With distinct keys the lookup finds every item. -/
theorem getKey_of_mem {k : PyKey} {v : PyValue} {items : Items}
    (hnd : (items.map Prod.fst).Nodup) (h : (k, v) ∈ items) : getKey k items = some v := by
  induction items with
  | nil => cases h
  | cons kv items ih =>
      obtain ⟨k', v'⟩ := kv
      rw [List.map_cons, List.nodup_cons] at hnd
      rcases List.mem_cons.mp h with heq | h
      · cases heq
        rw [getKey, if_pos rfl]
      · have hk : k' ≠ k := by
          rintro rfl
          exact hnd.1 (List.mem_map.mpr ⟨_, h, rfl⟩)
        rw [getKey, if_neg hk]
        exact ih hnd.2 h

@[simp] theorem getKey_setKey_self (k : PyKey) (v : PyValue) (items : Items) :
    getKey k (setKey k v items) = some v := by
  induction items with
  | nil => simp [setKey, getKey]
  | cons kv items ih =>
      obtain ⟨k', v'⟩ := kv
      by_cases h : k' = k
      · simp [setKey, getKey, h]
      · simp [setKey, getKey, h, ih]

/-- An assignment changes one key only. -/
theorem getKey_setKey_ne {k k' : PyKey} (hne : k' ≠ k) (v : PyValue) (items : Items) :
    getKey k' (setKey k v items) = getKey k' items := by
  induction items with
  | nil => simp [setKey, getKey, Ne.symm hne]
  | cons kv items ih =>
      obtain ⟨k'', v'⟩ := kv
      by_cases h : k'' = k
      · subst h
        simp [setKey, getKey, Ne.symm hne]
      · by_cases h' : k'' = k'
        · subst h'
          simp [setKey, getKey, h]
        · simp [setKey, getKey, h, h', ih]

/-- The keys after an assignment. -/
theorem mem_keys_setKey {k k' : PyKey} {v : PyValue} {items : Items} :
    k' ∈ (setKey k v items).map Prod.fst ↔ k' = k ∨ k' ∈ items.map Prod.fst := by
  induction items with
  | nil => simp [setKey]
  | cons kv items ih =>
      obtain ⟨k'', v'⟩ := kv
      by_cases h : k'' = k
      · simp [setKey, h]
      · rw [setKey, if_neg h, List.map_cons, List.mem_cons, ih, List.map_cons, List.mem_cons]
        tauto

/-- An assignment makes no key occur twice. -/
theorem nodup_setKey {k : PyKey} {v : PyValue} {items : Items}
    (hnd : (items.map Prod.fst).Nodup) : ((setKey k v items).map Prod.fst).Nodup := by
  induction items with
  | nil => simp [setKey]
  | cons kv items ih =>
      obtain ⟨k', v'⟩ := kv
      rw [List.map_cons, List.nodup_cons] at hnd
      by_cases h : k' = k
      · subst h
        rw [setKey, if_pos rfl, List.map_cons, List.nodup_cons]
        exact hnd
      · rw [setKey, if_neg h, List.map_cons, List.nodup_cons, mem_keys_setKey]
        exact ⟨fun hm => hm.elim h hnd.1, ih hnd.2⟩

theorem mem_setKey {k : PyKey} {v : PyValue} {items : Items} {kv : PyKey × PyValue}
    (h : kv ∈ setKey k v items) : kv = (k, v) ∨ kv ∈ items := by
  induction items with
  | nil => exact Or.inl (List.mem_singleton.mp h)
  | cons kv' items ih =>
      obtain ⟨k', v'⟩ := kv'
      by_cases hk : k' = k
      · rw [setKey, if_pos hk] at h
        rcases List.mem_cons.mp h with h | h
        · exact Or.inl h
        · exact Or.inr (List.mem_cons_of_mem _ h)
      · rw [setKey, if_neg hk] at h
        rcases List.mem_cons.mp h with h | h
        · exact Or.inr (h ▸ List.mem_cons_self)
        · rcases ih h with h | h
          · exact Or.inl h
          · exact Or.inr (List.mem_cons_of_mem _ h)

/-- A dict stays well-formed when it gets a well-formed value. -/
theorem PyValue.wf_setKey {k : PyKey} {v : PyValue} {items : Items} (hv : v.WF)
    (hi : (PyValue.dict items).WF) : (PyValue.dict (setKey k v items)).WF := by
  rw [wf_dict] at hi ⊢
  refine ⟨nodup_setKey hi.1, fun kv h => ?_⟩
  rcases mem_setKey h with rfl | h
  · exact hv
  · exact hi.2 kv h

/-- Assigning the value a key has changes nothing. -/
theorem setKey_of_getKey {k : PyKey} {v : PyValue} {items : Items} (h : getKey k items = some v) :
    setKey k v items = items := by
  induction items with
  | nil => cases h
  | cons kv items ih =>
      obtain ⟨k', v'⟩ := kv
      by_cases hk : k' = k
      · rw [getKey, if_pos hk, Option.some.injEq] at h
        rw [setKey, if_pos hk, hk, h]
      · rw [getKey, if_neg hk] at h
        rw [setKey, if_neg hk, ih h]

/-- Of two assignments to one key the last one counts. -/
@[simp] theorem setKey_setKey (k : PyKey) (v w : PyValue) (items : Items) :
    setKey k w (setKey k v items) = setKey k w items := by
  induction items with
  | nil => simp [setKey]
  | cons kv items ih =>
      obtain ⟨k', v'⟩ := kv
      by_cases hk : k' = k
      · simp [setKey, hk]
      · simp [setKey, hk, ih]

/-- The items of a dict with string keys. -/
def strItems (kvs : List (PyStr × PyValue)) : Items := kvs.map fun kv => (.str kv.1, kv.2)

theorem keys_strItems (kvs : List (PyStr × PyValue)) :
    (strItems kvs).map Prod.fst = (kvs.map Prod.fst).map .str := by
  rw [strItems, List.map_map, List.map_map]
  rfl

theorem nodup_strItems {kvs : List (PyStr × PyValue)} :
    ((strItems kvs).map Prod.fst).Nodup ↔ (kvs.map Prod.fst).Nodup := by
  rw [keys_strItems]
  exact List.nodup_map_iff fun _ _ h => PyKey.str.inj h

/-- The item with a string key. -/
def getStr (k : String) (items : Items) : Option PyValue := getKey (.str (lit k)) items

/-- `d[k] = v` for a string key. -/
def setStr (k : String) (v : PyValue) (items : Items) : Items := setKey (.str (lit k)) v items

@[simp] theorem getStr_setStr_self (k : String) (v : PyValue) (items : Items) :
    getStr k (setStr k v items) = some v := getKey_setKey_self _ v items

theorem getStr_setStr_ne {k k' : String} (hne : k' ≠ k) (v : PyValue) (items : Items) :
    getStr k' (setStr k v items) = getStr k' items :=
  getKey_setKey_ne (fun h => hne (lit_injective (PyKey.str.inj h))) v items

@[simp] theorem setStr_setStr (k : String) (v w : PyValue) (items : Items) :
    setStr k w (setStr k v items) = setStr k w items := setKey_setKey _ v w items

/-- Assigning what is there changes nothing. -/
theorem setStr_of_getStr {k : String} {v : PyValue} {items : Items} (h : getStr k items = some v) :
    setStr k v items = items := setKey_of_getKey h

/-- `v[k]` for a string `k`. -/
def PyValue.getItem (v : PyValue) (k : String) : Except PyErr PyValue :=
  match v with
  | .dict items =>
      match getStr k items with
      | .some w => .ok w
      | .none => builtinError .KeyError
  | _ => builtinError .TypeError

/-- `v.get(k, default)` for a string `k`. -/
def PyValue.getMethod (v : PyValue) (k : String) (default : PyValue) : Except PyErr PyValue :=
  match v with
  | .dict items => .ok ((getStr k items).getD default)
  | _ => builtinError .AttributeError

/-- `k in v` for a string `k` and a dict `v`. -/
def PyValue.contains (v : PyValue) (k : String) : Except PyErr Bool :=
  match v with
  | .dict items => .ok (getStr k items).isSome
  | _ => builtinError .TypeError

/-- `v[k] = w` for a string `k`. -/
def PyValue.setItem (v : PyValue) (k : String) (w : PyValue) : Except PyErr PyValue :=
  match v with
  | .dict items => .ok (.dict (setStr k w items))
  | _ => builtinError .TypeError

section

variable {v w d : PyValue} {k : String}

/-- `v[k]` returns for a dict with the key only. -/
theorem PyValue.getItem_eq_ok :
    v.getItem k = .ok w ↔ ∃ items, v = .dict items ∧ getStr k items = some w := by
  cases v with
  | dict items =>
      rw [getItem]
      cases hg : getStr k items with
      | none => simp [builtinError, hg]
      | some u => simp [hg]
  | _ => simp [getItem, builtinError]

/-- `v.get(k, d)` returns for every dict. -/
theorem PyValue.getMethod_eq_ok :
    v.getMethod k d = .ok w ↔ ∃ items, v = .dict items ∧ (getStr k items).getD d = w := by
  cases v with
  | dict items => simp [getMethod]
  | _ => simp [getMethod, builtinError]

/-- `v[k] = w` is possible for every dict. -/
theorem PyValue.setItem_eq_ok {u : PyValue} :
    v.setItem k w = .ok u ↔ ∃ items, v = .dict items ∧ u = .dict (setStr k w items) := by
  cases v with
  | dict items => simp [setItem, eq_comm]
  | _ => simp [setItem, builtinError]

end

/-- `isinstance(v, dict)`. -/
def PyValue.isDict : PyValue → Bool
  | .dict _ => true
  | _ => false

/-- `isinstance(v, str)`. -/
def PyValue.isStr : PyValue → Bool
  | .str _ => true
  | _ => false

/-- The items of a dict display with literal keys. -/
def members (kvs : List (String × PyValue)) : Items :=
  strItems (kvs.map fun kv => (lit kv.1, kv.2))

/-- A dict display with literal keys. -/
def dictOf (kvs : List (String × PyValue)) : PyValue := .dict (members kvs)

/-- Looking up a literal key in a dict written as a literal. -/
theorem getStr_members (k : String) (kvs : List (String × PyValue)) :
    getStr k (members kvs) = kvs.lookup k := by
  induction kvs with
  | nil => rfl
  | cons kv kvs ih =>
      obtain ⟨k', v⟩ := kv
      by_cases h : k' = k
      · rw [h, List.lookup_cons_self]
        exact if_pos rfl
      · have hne : PyKey.str (lit k') ≠ .str (lit k) := fun he =>
          h (lit_injective (PyKey.str.inj he))
        rw [List.lookup_cons, beq_eq_false_iff_ne.mpr (Ne.symm h), ← ih]
        exact if_neg hne

theorem nodup_members {kvs : List (String × PyValue)} :
    ((members kvs).map Prod.fst).Nodup ↔ (kvs.map Prod.fst).Nodup := by
  rw [members, nodup_strItems, List.map_map,
    ← List.nodup_map_iff (f := lit) lit_injective, List.map_map]
  rfl

theorem forall_mem_members {p : PyKey × PyValue → Prop} {kvs : List (String × PyValue)} :
    (∀ kv ∈ members kvs, p kv) ↔ ∀ kv ∈ kvs, p (.str (lit kv.1), kv.2) := by
  rw [members, strItems, List.map_map, List.forall_mem_map]
  rfl

/-- A dict written as a literal is well-formed if its keys are distinct. -/
theorem PyValue.wf_members {kvs : List (String × PyValue)} :
    (PyValue.dict (members kvs)).WF ↔ (kvs.map Prod.fst).Nodup ∧ ∀ kv ∈ kvs, kv.2.WF := by
  rw [wf_dict, nodup_members, forall_mem_members]

end Python
