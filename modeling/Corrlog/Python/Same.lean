import Corrlog.Python.Value

/-!
# JSON values in the binary64 domain

`JsonAble` says which values have a JSON text with binary64 numbers: string keys
and strings without surrogates, finite floats, integers within the binary64
range, and no value of another type.

`Same` is equality of such values.  Lists and tuples are not told apart, dicts
are finite maps, and numbers are compared after `float()` with `-0.0 = 0.0`.  On
well-formed values it is an equivalence (`same_refl`, `same_symm`, `same_trans`).

`pyEq` is Python's own `==`.  The code compares with `==` only against strings,
and against dicts of strings and integers that it builds itself.
-/

namespace Python

open Binary64 (ofInt)

/-- A key that an object member can have. -/
def PyKey.JsonAble : PyKey → Prop
  | .str k => noSurrogates k = true
  | _ => False

namespace PyValue

/-! ## Lists that correspond element by element -/

section

variable {α β : Type} {R S : α → β → Prop} {l : List α} {l' : List β}

theorem exists_right_of_forall₂ (h : List.Forall₂ R l l') {a : α} (ha : a ∈ l) :
    ∃ b ∈ l', R a b := by
  induction h with
  | nil => cases ha
  | cons hab _ ih =>
      rcases List.mem_cons.mp ha with rfl | ha
      · exact ⟨_, List.mem_cons_self, hab⟩
      · obtain ⟨b, hb, hr⟩ := ih ha
        exact ⟨b, List.mem_cons_of_mem _ hb, hr⟩

theorem exists_left_of_forall₂ (h : List.Forall₂ R l l') {b : β} (hb : b ∈ l') : ∃ a ∈ l, R a b :=
  exists_right_of_forall₂ h.flip hb

/-- A relation may be replaced by one that follows from it for the elements. -/
theorem forall₂_imp_of_mem (h : List.Forall₂ R l l') (hRS : ∀ a ∈ l, ∀ b ∈ l', R a b → S a b) :
    List.Forall₂ S l l' := by
  induction h with
  | nil => exact .nil
  | cons hab _ ih =>
      refine .cons (hRS _ List.mem_cons_self _ List.mem_cons_self hab) (ih fun a ha b hb => ?_)
      exact hRS a (List.mem_cons_of_mem _ ha) b (List.mem_cons_of_mem _ hb)

end

/-! ## Numbers -/

/-- The binary64 number a JSON number stands for, with zero positive. -/
def num? : PyValue → Option Binary64
  | .int n => if (ofInt n).isFinite then some (ofInt n).normZero else .none
  | .float x => if x.isFinite then some x.normZero else .none
  | _ => .none

/-- The elements of an array. -/
def seq? : PyValue → Option (List PyValue)
  | .list xs => some xs
  | .tuple xs => some xs
  | _ => .none

/-! ## Values with a JSON text -/

mutual

/-- The value has a canonical JSON text. -/
def jsonAble : PyValue → Bool
  | .none => true
  | .bool _ => true
  | .int n => (ofInt n).isFinite
  | .float x => x.isFinite
  | .str s => noSurrogates s
  | .list xs => jsonAbleList xs
  | .tuple xs => jsonAbleList xs
  | .dict items => jsonAbleItems items
  | .other _ => false

/-- `jsonAble` of every element. -/
def jsonAbleList : List PyValue → Bool
  | [] => true
  | x :: xs => jsonAble x && jsonAbleList xs

/-- `jsonAble` of every value, for keys that are strings. -/
def jsonAbleItems : Items → Bool
  | [] => true
  | (.str k, v) :: items => noSurrogates k && jsonAble v && jsonAbleItems items
  | _ :: _ => false

end

/-- The value has a canonical JSON text. -/
def JsonAble (v : PyValue) : Prop := v.jsonAble = true

instance (v : PyValue) : Decidable v.JsonAble := inferInstanceAs (Decidable (v.jsonAble = true))

theorem jsonAbleList_iff (xs : List PyValue) :
    jsonAbleList xs = true ↔ ∀ x ∈ xs, JsonAble x := by
  induction xs with
  | nil => simp [jsonAbleList]
  | cons x xs ih => simp [jsonAbleList, ih, JsonAble]

theorem jsonAbleItems_iff (items : Items) :
    jsonAbleItems items = true ↔ ∀ kv ∈ items, kv.1.JsonAble ∧ JsonAble kv.2 := by
  induction items with
  | nil => simp [jsonAbleItems]
  | cons kv items ih =>
      obtain ⟨k, v⟩ := kv
      cases k with
      | str k => simp [jsonAbleItems, ih, PyKey.JsonAble, JsonAble, and_assoc]
      | none => simp [jsonAbleItems, PyKey.JsonAble]
      | bool b => simp [jsonAbleItems, PyKey.JsonAble]
      | int n => simp [jsonAbleItems, PyKey.JsonAble]
      | float x => simp [jsonAbleItems, PyKey.JsonAble]
      | other o => simp [jsonAbleItems, PyKey.JsonAble]

@[simp] theorem jsonAble_list (xs : List PyValue) :
    JsonAble (.list xs) ↔ ∀ x ∈ xs, JsonAble x := jsonAbleList_iff xs

@[simp] theorem jsonAble_tuple (xs : List PyValue) :
    JsonAble (.tuple xs) ↔ ∀ x ∈ xs, JsonAble x := jsonAbleList_iff xs

/-- The keys of the dict are strings without surrogates, and its values have a JSON text. -/
@[simp] theorem jsonAble_dict (items : Items) :
    JsonAble (.dict items) ↔ ∀ kv ∈ items, kv.1.JsonAble ∧ JsonAble kv.2 :=
  jsonAbleItems_iff items

@[simp] theorem jsonAble_none : JsonAble .none := rfl

@[simp] theorem jsonAble_bool (b : Bool) : JsonAble (.bool b) := rfl

@[simp] theorem jsonAble_int (n : ℤ) : JsonAble (.int n) ↔ (ofInt n).isFinite = true := Iff.rfl

@[simp] theorem jsonAble_float (x : Binary64) : JsonAble (.float x) ↔ x.isFinite = true := Iff.rfl

@[simp] theorem jsonAble_str (s : PyStr) : JsonAble (.str s) ↔ noSurrogates s = true := Iff.rfl

@[simp] theorem not_jsonAble_other (o : Foreign) : ¬ JsonAble (.other o) := by
  simp [JsonAble, jsonAble]

/-- Keys that are strings. -/
theorem exists_strItems_of_keys {items : Items} (h : ∀ kv ∈ items, ∃ k, kv.1 = PyKey.str k) :
    ∃ kvs, items = strItems kvs := by
  induction items with
  | nil => exact ⟨[], rfl⟩
  | cons kv items ih =>
      obtain ⟨kvs, rfl⟩ := ih fun kv hkv => h kv (List.mem_cons_of_mem _ hkv)
      obtain ⟨k, hk⟩ := h kv List.mem_cons_self
      exact ⟨(k, kv.2) :: kvs, by rw [strItems, strItems, List.map_cons, ← hk]⟩

theorem mem_strItems {kvs : List (PyStr × PyValue)} {k : PyStr} {v : PyValue} :
    (PyKey.str k, v) ∈ strItems kvs ↔ (k, v) ∈ kvs := by
  rw [strItems, List.mem_map]
  constructor
  · rintro ⟨kv, hkv, h⟩
    cases h
    exact hkv
  · exact fun h => ⟨_, h, rfl⟩

/-- The members of an object. -/
theorem exists_strItems {items : Items} (h : JsonAble (.dict items)) :
    ∃ kvs : List (PyStr × PyValue), items = strItems kvs ∧
      ∀ kv ∈ kvs, noSurrogates kv.1 = true ∧ JsonAble kv.2 := by
  rw [jsonAble_dict] at h
  obtain ⟨kvs, rfl⟩ := exists_strItems_of_keys fun kv hkv => by
    have hk := (h kv hkv).1
    cases hkey : kv.1 with
    | str k => exact ⟨k, rfl⟩
    | none => rw [hkey] at hk; exact hk.elim
    | bool b => rw [hkey] at hk; exact hk.elim
    | int n => rw [hkey] at hk; exact hk.elim
    | float x => rw [hkey] at hk; exact hk.elim
    | other o => rw [hkey] at hk; exact hk.elim
  exact ⟨kvs, rfl, fun kv hkv => h _ (mem_strItems.mpr hkv)⟩

/-! ## Equality of JSON values -/

mutual

/-- The same JSON value in the binary64 domain. -/
def Same : PyValue → PyValue → Prop
  | .none, w => w = .none
  | .bool b, w => w = .bool b
  | .int n, w => ∃ x, num? (.int n) = some x ∧ num? w = some x
  | .float y, w => ∃ x, num? (.float y) = some x ∧ num? w = some x
  | .str s, w => w = .str s
  | .list xs, w => ∃ ys, seq? w = some ys ∧ SameList xs ys
  | .tuple xs, w => ∃ ys, seq? w = some ys ∧ SameList xs ys
  | .dict items, w => ∃ items', w = .dict items' ∧ SameItems items items' ∧
      ∀ k ∈ items'.map Prod.fst, k ∈ items.map Prod.fst
  | .other o, w => w = .other o

/-- Element by element. -/
def SameList : List PyValue → List PyValue → Prop
  | [], ys => ys = []
  | x :: xs, ys => ∃ y ys', ys = y :: ys' ∧ Same x y ∧ SameList xs ys'

/-- Every member has a member with its key and the same value. -/
def SameItems : Items → Items → Prop
  | [], _ => True
  | (k, v) :: items, items' => (∃ w, (k, w) ∈ items' ∧ Same v w) ∧ SameItems items items'

end

theorem sameList_iff {xs ys : List PyValue} : SameList xs ys ↔ List.Forall₂ Same xs ys := by
  induction xs generalizing ys with
  | nil => simp [SameList]
  | cons x xs ih =>
      simp only [SameList, ih, List.forall₂_cons_left_iff]
      constructor
      · rintro ⟨y, ys', h1, h2, h3⟩
        exact ⟨y, ys', h2, h3, h1⟩
      · rintro ⟨y, ys', h2, h3, h1⟩
        exact ⟨y, ys', h1, h2, h3⟩

theorem sameItems_iff {items items' : Items} :
    SameItems items items' ↔ ∀ kv ∈ items, ∃ w, (kv.1, w) ∈ items' ∧ Same kv.2 w := by
  induction items with
  | nil => simp [SameItems]
  | cons kv items ih => simp [SameItems, ih]

/-- A list is the same JSON value as the lists and tuples of the same elements. -/
theorem same_list_iff {xs : List PyValue} {w : PyValue} :
    Same (.list xs) w ↔ ∃ ys, seq? w = some ys ∧ List.Forall₂ Same xs ys := by
  simp only [Same, sameList_iff]

theorem same_tuple_iff {xs : List PyValue} {w : PyValue} :
    Same (.tuple xs) w ↔ ∃ ys, seq? w = some ys ∧ List.Forall₂ Same xs ys := by
  simp only [Same, sameList_iff]

/-- The order of the items does not matter. -/
theorem same_dict_iff {items : Items} {w : PyValue} :
    Same (.dict items) w ↔ ∃ items', w = .dict items' ∧
      (∀ kv ∈ items, ∃ w, (kv.1, w) ∈ items' ∧ Same kv.2 w) ∧
      ∀ k ∈ items'.map Prod.fst, k ∈ items.map Prod.fst := by
  simp only [Same, sameItems_iff]

/-- Numbers are the same if they stand for one binary64 number. -/
theorem same_of_num {v w : PyValue} {x : Binary64} (hv : num? v = some x) (hw : num? w = some x) :
    Same v w := by
  cases v with
  | int n => exact ⟨x, hv, hw⟩
  | float y => exact ⟨x, hv, hw⟩
  | none => cases hv
  | bool b => cases hv
  | str s => cases hv
  | list xs => cases hv
  | tuple xs => cases hv
  | dict items => cases hv
  | other o => cases hv

theorem wf_of_num {v : PyValue} {x : Binary64} (h : num? v = some x) : WF v := by
  cases v with
  | int n => exact wf_int n
  | float y => exact wf_float y
  | none => cases h
  | bool b => cases h
  | str s => cases h
  | list xs => cases h
  | tuple xs => cases h
  | dict items => cases h
  | other o => cases h

/-- A value that has a JSON text is the same as itself; NaN is not. -/
theorem same_refl {v : PyValue} (h : v.JsonAble) : Same v v := by
  induction v with
  | none => rfl
  | bool b => rfl
  | int n =>
      have hf : (ofInt n).isFinite = true := h
      exact ⟨(ofInt n).normZero, by simp [num?, hf], by simp [num?, hf]⟩
  | float x =>
      have hf : x.isFinite = true := h
      exact ⟨x.normZero, by simp [num?, hf], by simp [num?, hf]⟩
  | str s => rfl
  | list xs ih =>
      rw [jsonAble_list] at h
      exact same_list_iff.mpr ⟨xs, rfl, List.forall₂_same.mpr fun x hx => ih x hx (h x hx)⟩
  | tuple xs ih =>
      rw [jsonAble_tuple] at h
      exact same_tuple_iff.mpr ⟨xs, rfl, List.forall₂_same.mpr fun x hx => ih x hx (h x hx)⟩
  | dict items ih =>
      rw [jsonAble_dict] at h
      exact same_dict_iff.mpr ⟨items, rfl, fun kv hkv => ⟨kv.2, hkv, ih kv hkv (h kv hkv).2⟩,
        fun _ hk => hk⟩
  | other o => rfl

theorem seq?_eq_some_iff {w : PyValue} {ys : List PyValue} :
    seq? w = some ys ↔ w = .list ys ∨ w = .tuple ys := by
  cases w <;> simp [seq?]

/-- The elements of an array, whichever of its two Python types it has. -/
theorem same_of_seq {v w : PyValue} {xs ys : List PyValue} (hv : seq? v = some xs)
    (hw : seq? w = some ys) (h : List.Forall₂ Same xs ys) : Same v w := by
  rcases seq?_eq_some_iff.mp hv with rfl | rfl
  · exact same_list_iff.mpr ⟨ys, hw, h⟩
  · exact same_tuple_iff.mpr ⟨ys, hw, h⟩

/-- Objects whose members correspond, in some order, are the same. -/
theorem same_strItems {kvs l kws : List (PyStr × PyValue)} (hp : l.Perm kvs)
    (h : List.Forall₂ (fun kv kw => kv.1 = kw.1 ∧ Same kv.2 kw.2) l kws) :
    Same (.dict (strItems kvs)) (.dict (strItems kws)) := by
  refine same_dict_iff.mpr ⟨_, rfl, fun kv' hkv' => ?_, fun k hk => ?_⟩
  · obtain ⟨kv, hkv, rfl⟩ := List.mem_map.mp hkv'
    obtain ⟨kw, hkw, hk, hs⟩ := exists_right_of_forall₂ h (hp.mem_iff.mpr hkv)
    exact ⟨kw.2, List.mem_map.mpr ⟨kw, hkw, by rw [hk]⟩, hs⟩
  · rw [keys_strItems, List.mem_map] at hk ⊢
    obtain ⟨k, hk, rfl⟩ := hk
    obtain ⟨kw, hkw, rfl⟩ := List.mem_map.mp hk
    obtain ⟨kv, hkv, hk, _⟩ := exists_left_of_forall₂ h hkw
    exact ⟨kv.1, List.mem_map.mpr ⟨kv, hp.mem_iff.mp hkv, rfl⟩, by rw [hk]⟩

/-- In a well-formed dict a key has one value. -/
theorem wf_dict_unique {items : Items} (h : WF (.dict items)) {k : PyKey} {v w : PyValue}
    (hv : (k, v) ∈ items) (hw : (k, w) ∈ items) : v = w := by
  rw [wf_dict] at h
  have h1 := getKey_of_mem h.1 hv
  rw [getKey_of_mem h.1 hw] at h1
  exact (Option.some.inj h1).symm

theorem wf_of_seq {w : PyValue} {ys : List PyValue} (hw : WF w) (h : seq? w = some ys) :
    ∀ y ∈ ys, WF y := by
  rcases seq?_eq_some_iff.mp h with rfl | rfl
  · exact (wf_list ys).mp hw
  · exact (wf_tuple ys).mp hw

theorem jsonAble_of_seq {w : PyValue} {ys : List PyValue} (hw : JsonAble w) (h : seq? w = some ys) :
    ∀ y ∈ ys, JsonAble y := by
  rcases seq?_eq_some_iff.mp h with rfl | rfl
  · exact (jsonAble_list ys).mp hw
  · exact (jsonAble_tuple ys).mp hw

theorem forall₂_same_symm {xs ys : List PyValue} (hys : ∀ y ∈ ys, WF y)
    (ih : ∀ x ∈ xs, ∀ y, WF y → Same x y → Same y x) (h : List.Forall₂ Same xs ys) :
    List.Forall₂ Same ys xs :=
  (forall₂_imp_of_mem (S := fun x y => Same y x) h fun x hx y hy => ih x hx y (hys y hy)).flip

/-- The keys are distinct on the other side too, so the items can be looked up from there. -/
theorem same_symm {v w : PyValue} (hw : w.WF) (h : Same v w) : Same w v := by
  induction v generalizing w with
  | none => cases h; rfl
  | bool b => cases h; rfl
  | int n => obtain ⟨x, h1, h2⟩ := h; exact same_of_num h2 h1
  | float y => obtain ⟨x, h1, h2⟩ := h; exact same_of_num h2 h1
  | str s => cases h; rfl
  | list xs ih =>
      obtain ⟨ys, hys, hf⟩ := same_list_iff.mp h
      exact same_of_seq hys rfl (forall₂_same_symm (wf_of_seq hw hys) (fun x hx y => ih x hx) hf)
  | tuple xs ih =>
      obtain ⟨ys, hys, hf⟩ := same_tuple_iff.mp h
      exact same_of_seq hys rfl (forall₂_same_symm (wf_of_seq hw hys) (fun x hx y => ih x hx) hf)
  | dict items ih =>
      obtain ⟨items', rfl, hsub, hkeys⟩ := same_dict_iff.mp h
      refine same_dict_iff.mpr ⟨items, rfl, ?_, ?_⟩
      · -- the member with key `k` on the left is matched by the only one on the right
        rintro ⟨k, w⟩ hkw
        obtain ⟨⟨k', v⟩, hkv, hk⟩ := List.mem_map.mp (hkeys k (List.mem_map.mpr ⟨_, hkw, rfl⟩))
        cases hk
        obtain ⟨w', hkw', hs⟩ := hsub _ hkv
        cases wf_dict_unique hw hkw hkw'
        exact ⟨v, hkv, ih _ hkv (((wf_dict _).mp hw).2 _ hkw) hs⟩
      · intro k hk
        obtain ⟨kv, hkv, rfl⟩ := List.mem_map.mp hk
        obtain ⟨w, hw', _⟩ := hsub kv hkv
        exact List.mem_map.mpr ⟨_, hw', rfl⟩
  | other o => cases h; rfl

theorem forall₂_same_trans {xs ys zs : List PyValue}
    (ih : ∀ x ∈ xs, ∀ y z, Same x y → Same y z → Same x z) (hxy : List.Forall₂ Same xs ys)
    (hyz : List.Forall₂ Same ys zs) : List.Forall₂ Same xs zs := by
  induction hxy generalizing zs with
  | nil => cases hyz; exact .nil
  | cons hx _ ih' =>
      cases hyz with
      | cons hy hyz =>
          exact .cons (ih _ List.mem_cons_self _ _ hx hy)
            (ih' (fun x hx => ih x (List.mem_cons_of_mem _ hx)) hyz)

/-- A number is the same as numbers of its value only. -/
theorem num?_of_same {v w : PyValue} {x : Binary64} (hv : num? v = some x) (h : Same v w) :
    num? w = some x := by
  cases v with
  | int n => obtain ⟨y, h1, h2⟩ := h; rw [h2, ← h1, hv]
  | float z => obtain ⟨y, h1, h2⟩ := h; rw [h2, ← h1, hv]
  | none => cases hv
  | bool b => cases hv
  | str s => cases hv
  | list xs => cases hv
  | tuple xs => cases hv
  | dict items => cases hv
  | other o => cases hv

theorem seq?_of_same {v w : PyValue} {xs : List PyValue} (hv : seq? v = some xs) (h : Same v w) :
    ∃ ys, seq? w = some ys ∧ List.Forall₂ Same xs ys := by
  rcases seq?_eq_some_iff.mp hv with rfl | rfl
  · exact same_list_iff.mp h
  · exact same_tuple_iff.mp h

/-- By induction on the first value. -/
theorem same_trans {u v w : PyValue} (huv : Same u v) (hvw : Same v w) : Same u w := by
  induction u generalizing v w with
  | none => cases huv; exact hvw
  | bool b => cases huv; exact hvw
  | int n => obtain ⟨x, h1, h2⟩ := huv; exact same_of_num h1 (num?_of_same h2 hvw)
  | float y => obtain ⟨x, h1, h2⟩ := huv; exact same_of_num h1 (num?_of_same h2 hvw)
  | str s => cases huv; exact hvw
  | list xs ih =>
      obtain ⟨ys, hys, hxy⟩ := same_list_iff.mp huv
      obtain ⟨zs, hzs, hyz⟩ := seq?_of_same hys hvw
      exact same_of_seq rfl hzs (forall₂_same_trans (fun x hx y z => ih x hx) hxy hyz)
  | tuple xs ih =>
      obtain ⟨ys, hys, hxy⟩ := same_tuple_iff.mp huv
      obtain ⟨zs, hzs, hyz⟩ := seq?_of_same hys hvw
      exact same_of_seq rfl hzs (forall₂_same_trans (fun x hx y z => ih x hx) hxy hyz)
  | dict items ih =>
      obtain ⟨items', rfl, hsub, hkeys⟩ := same_dict_iff.mp huv
      obtain ⟨items'', rfl, hsub', hkeys'⟩ := same_dict_iff.mp hvw
      refine same_dict_iff.mpr ⟨items'', rfl, fun kv hkv => ?_, fun k hk => ?_⟩
      · obtain ⟨w, hw, hs⟩ := hsub kv hkv
        obtain ⟨w', hw', hs'⟩ := hsub' _ hw
        exact ⟨w', hw', ih kv hkv hs hs'⟩
      · exact hkeys k (hkeys' k hk)
  | other o => cases huv; exact hvw

theorem jsonAble_of_num {v : PyValue} {x : Binary64} (h : num? v = some x) : JsonAble v := by
  cases v with
  | int n =>
      rw [num?] at h
      split at h
      next hf => exact hf
      next => cases h
  | float y =>
      rw [num?] at h
      split at h
      next hf => exact hf
      next => cases h
  | none => cases h
  | bool b => cases h
  | str s => cases h
  | list xs => cases h
  | tuple xs => cases h
  | dict items => cases h
  | other o => cases h

theorem jsonAble_of_forall₂ {v : PyValue} {xs ys : List PyValue} (h : List.Forall₂ Same xs ys)
    (hv : seq? v = some ys) (ih : ∀ x ∈ xs, ∀ y ∈ ys, Same x y → JsonAble y) : JsonAble v := by
  have hys : ∀ y ∈ ys, JsonAble y := fun y hy => by
    obtain ⟨x, hx, hs⟩ := exists_left_of_forall₂ h hy
    exact ih x hx y hy hs
  rcases seq?_eq_some_iff.mp hv with rfl | rfl
  · exact (jsonAble_list ys).mpr hys
  · exact (jsonAble_tuple ys).mpr hys

/-- A value that is the same as one with a JSON text has one. -/
theorem jsonAble_of_same {v w : PyValue} (hv : v.JsonAble) (hw : w.WF) (h : Same v w) :
    w.JsonAble := by
  induction v generalizing w with
  | none => cases h; rfl
  | bool b => cases h; rfl
  | int n => obtain ⟨x, _, h2⟩ := h; exact jsonAble_of_num h2
  | float y => obtain ⟨x, _, h2⟩ := h; exact jsonAble_of_num h2
  | str s => cases h; exact hv
  | list xs ih =>
      obtain ⟨ys, hys, hf⟩ := same_list_iff.mp h
      rw [jsonAble_list] at hv
      exact jsonAble_of_forall₂ hf hys fun x hx y hy => ih x hx (hv x hx) (wf_of_seq hw hys y hy)
  | tuple xs ih =>
      obtain ⟨ys, hys, hf⟩ := same_tuple_iff.mp h
      rw [jsonAble_tuple] at hv
      exact jsonAble_of_forall₂ hf hys fun x hx y hy => ih x hx (hv x hx) (wf_of_seq hw hys y hy)
  | dict items ih =>
      obtain ⟨items', rfl, hsub, hkeys⟩ := same_dict_iff.mp h
      rw [jsonAble_dict] at hv ⊢
      rintro ⟨k, w⟩ hkw
      obtain ⟨⟨k', v⟩, hkv, hk⟩ := List.mem_map.mp (hkeys k (List.mem_map.mpr ⟨_, hkw, rfl⟩))
      cases hk
      obtain ⟨w', hkw', hs⟩ := hsub _ hkv
      cases wf_dict_unique hw hkw hkw'
      exact ⟨(hv _ hkv).1, ih _ hkv (hv _ hkv).2 (((wf_dict _).mp hw).2 _ hkw) hs⟩
  | other o => cases h; exact hv

/-! ## Python's `==` -/

/-- The comparison of an integer with a float is exact. -/
def intEqFloat (n : ℤ) : Binary64 → Bool
  | .finite neg m =>
      decide ((if neg then -(Binary64.grid m.val : ℤ) else Binary64.grid m.val) = n * 2 ^ 1074)
  | .inf _ => false
  | .nan => false

/-- Two floats are equal as numbers, a NaN to none. -/
def floatEq (x y : Binary64) : Bool := decide (x ≠ .nan) && decide (x.normZero = y.normZero)

/-- `True` and `False` count as `1` and `0`. -/
def boolInt (b : Bool) : ℤ := if b then 1 else 0

mutual

/-- `v == w`. -/
def pyEq : PyValue → PyValue → Bool
  | .none, .none => true
  | .str s, .str t => decide (s = t)
  | .bool b, .bool c => b == c
  | .bool b, .int n => decide (boolInt b = n)
  | .bool b, .float x => intEqFloat (boolInt b) x
  | .int n, .bool b => decide (n = boolInt b)
  | .int n, .int k => decide (n = k)
  | .int n, .float x => intEqFloat n x
  | .float x, .bool b => intEqFloat (boolInt b) x
  | .float x, .int n => intEqFloat n x
  | .float x, .float y => floatEq x y
  | .list xs, .list ys => pyEqList xs ys
  | .tuple xs, .tuple ys => pyEqList xs ys
  | .dict items, .dict items' => decide (items.length = items'.length) && pyEqItems items items'
  | .other o, .other o' => decide (o = o')
  | _, _ => false

/-- `==` of two lists. -/
def pyEqList : List PyValue → List PyValue → Bool
  | [], [] => true
  | x :: xs, y :: ys => pyEq x y && pyEqList xs ys
  | _, _ => false

/-- Every item has an equal one under its key. -/
def pyEqItems : Items → Items → Bool
  | [], _ => true
  | (k, v) :: items, items' =>
      (match getKey k items' with
        | .some w => pyEq v w
        | .none => false) && pyEqItems items items'

end

/-- Comparing with a string. -/
@[simp] theorem pyEq_str_iff {v : PyValue} {s : PyStr} : pyEq v (.str s) = true ↔ v = .str s := by
  cases v <;> simp [pyEq]

end PyValue

end Python
