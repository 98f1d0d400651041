import Corrlog.Python.Same

/-!
# Members of the same objects

Looking a key up in two dicts that are the same JSON value gives the same JSON
value (`getKey_of_same`), and so does assigning the same value to a key
(`same_setKey`).  For a dict of strings, Python's `==` is `Same`
(`pyEq_dict_iff`).
-/

namespace Python.PyValue

/-! ## Types -/

/-- The same value is a dict, or neither is. -/
theorem isDict_of_same {v w : PyValue} (h : Same v w) : isDict v = isDict w := by
  cases v with
  | none => cases h; rfl
  | bool b => cases h; rfl
  | int n => obtain ⟨x, _, h⟩ := h; cases w <;> first | rfl | cases h
  | float y => obtain ⟨x, _, h⟩ := h; cases w <;> first | rfl | cases h
  | str s => cases h; rfl
  | list xs => obtain ⟨ys, h, _⟩ := same_list_iff.mp h; cases w <;> first | rfl | cases h
  | tuple xs => obtain ⟨ys, h, _⟩ := same_tuple_iff.mp h; cases w <;> first | rfl | cases h
  | dict items => obtain ⟨items', rfl, _⟩ := same_dict_iff.mp h; rfl
  | other o => cases h; rfl

theorem isStr_of_same {v w : PyValue} (h : Same v w) : isStr v = isStr w := by
  cases v with
  | none => cases h; rfl
  | bool b => cases h; rfl
  | int n => obtain ⟨x, _, h⟩ := h; cases w <;> first | rfl | cases h
  | float y => obtain ⟨x, _, h⟩ := h; cases w <;> first | rfl | cases h
  | str s => cases h; rfl
  | list xs => obtain ⟨ys, h, _⟩ := same_list_iff.mp h; cases w <;> first | rfl | cases h
  | tuple xs => obtain ⟨ys, h, _⟩ := same_tuple_iff.mp h; cases w <;> first | rfl | cases h
  | dict items => obtain ⟨items', rfl, _⟩ := same_dict_iff.mp h; rfl
  | other o => cases h; rfl

theorem exists_str_of_isStr {v : PyValue} (h : isStr v = true) : ∃ s, v = .str s := by
  cases v <;> first | exact ⟨_, rfl⟩ | cases h

theorem exists_dict_of_isDict {v : PyValue} (h : isDict v = true) : ∃ items, v = .dict items := by
  cases v <;> first | exact ⟨_, rfl⟩ | cases h

/-- A string is only the same as itself. -/
theorem eq_of_same_str {v : PyValue} {s : PyStr} (h : Same v (.str s)) : v = .str s := by
  obtain ⟨t, rfl⟩ := exists_str_of_isStr (isStr_of_same h)
  exact (show PyValue.str s = .str t from h).symm

/-- A string is the same as itself only. -/
theorem eq_str_iff_of_same {v w : PyValue} {s : PyStr} (h : Same v w) : v = .str s ↔ w = .str s :=
  ⟨fun e => by rw [e] at h; exact h, fun e => by rw [e] at h; exact eq_of_same_str h⟩

/-! ## Lookup -/

/-- The same dicts have the same value under each key, or none. -/
theorem getKey_of_same {items items' : Items} (hw : WF (.dict items'))
    (h : Same (.dict items) (.dict items')) (k : PyKey) :
    Option.Rel Same (getKey k items) (getKey k items') := by
  obtain ⟨_, he, hsub, hkeys⟩ := same_dict_iff.mp h
  cases he
  cases hg : getKey k items with
  | none =>
      have hg' : getKey k items' = .none :=
        getKey_eq_none_iff.mpr fun hk => getKey_eq_none_iff.mp hg (hkeys k hk)
      rw [hg']
      exact .none
  | some v =>
      obtain ⟨w, hmem, hs⟩ := hsub _ (mem_of_getKey hg)
      rw [getKey_of_mem ((wf_dict _).mp hw).1 hmem]
      exact .some hs

/-- A value that a key has, it has the same of in the other dict. -/
theorem exists_getStr_of_same {items items' : Items} (hw : WF (.dict items'))
    (h : Same (.dict items) (.dict items')) {k : String} {v : PyValue}
    (hv : getStr k items = some v) : ∃ w, getStr k items' = some w ∧ Same v w := by
  have hk := getKey_of_same hw h (.str (lit k))
  rw [getStr] at hv
  rw [hv] at hk
  cases hg : getKey (.str (lit k)) items' with
  | none => rw [hg] at hk; cases hk
  | some w =>
      rw [hg] at hk
      exact ⟨w, hg, Option.rel_some_some.mp hk⟩

/-- Dicts whose keys have the same values are the same. -/
theorem same_dict_of_getKey {items items' : Items} (hv : WF (.dict items))
    (h : ∀ k, Option.Rel Same (getKey k items) (getKey k items')) :
    Same (.dict items) (.dict items') := by
  refine same_dict_iff.mpr ⟨items', rfl, fun kv hkv => ?_, fun k hk => ?_⟩
  · have hk := h kv.1
    rw [getKey_of_mem ((wf_dict _).mp hv).1 hkv] at hk
    cases hg : getKey kv.1 items' with
    | none => rw [hg] at hk; cases hk
    | some w =>
        rw [hg] at hk
        exact ⟨w, mem_of_getKey hg, Option.rel_some_some.mp hk⟩
  · by_contra hnot
    have hk' := h k
    rw [getKey_eq_none_iff.mpr hnot] at hk'
    cases hg : getKey k items' with
    | none => exact getKey_eq_none_iff.mp hg hk
    | some w => rw [hg] at hk'; cases hk'

/-- The same value for a key keeps dicts the same. -/
theorem same_setKey {items items' : Items} {v w : PyValue} (hi : WF (.dict items))
    (hi' : WF (.dict items')) (hv : WF v) (h : Same (.dict items) (.dict items'))
    (hvw : Same v w) (k : PyKey) : Same (.dict (setKey k v items)) (.dict (setKey k w items')) := by
  refine same_dict_of_getKey (wf_setKey hv hi) fun k' => ?_
  by_cases hk : k' = k
  · rw [hk, getKey_setKey_self, getKey_setKey_self]
    exact .some hvw
  · rw [getKey_setKey_ne hk, getKey_setKey_ne hk]
    exact getKey_of_same hi' h k'

theorem wf_setStr {items : Items} {k : String} {v : PyValue} (hv : WF v)
    (hi : WF (.dict items)) : WF (.dict (setStr k v items)) := wf_setKey hv hi

/-- The same dicts stay the same when the same is assigned. -/
theorem same_setStr {items items' : Items} {v w : PyValue} (hi : WF (.dict items))
    (hi' : WF (.dict items')) (hv : WF v) (h : Same (.dict items) (.dict items'))
    (hvw : Same v w) (k : String) : Same (.dict (setStr k v items)) (.dict (setStr k w items')) :=
  same_setKey hi hi' hv h hvw _

/-- What is looked up is well-formed. -/
theorem wf_of_getKey {items : Items} (hi : WF (.dict items)) {k : PyKey} {v : PyValue}
    (h : getKey k items = some v) : WF v :=
  ((wf_dict _).mp hi).2 _ (mem_of_getKey h)

theorem jsonAble_of_getKey {items : Items} (hi : JsonAble (.dict items)) {k : PyKey} {v : PyValue}
    (h : getKey k items = some v) : JsonAble v :=
  ((jsonAble_dict _).mp hi _ (mem_of_getKey h)).2

/-- A literal dict has a JSON text if its values have one. -/
theorem jsonAble_members {kvs : List (String × PyValue)} :
    JsonAble (.dict (members kvs)) ↔ ∀ kv ∈ kvs, JsonAble kv.2 := by
  rw [jsonAble_dict, forall_mem_members]
  exact forall₂_congr fun kv _ => and_iff_right (noSurrogates_lit kv.1)

theorem jsonAble_setStr {items : Items} {k : String} {v : PyValue} (hv : JsonAble v)
    (hi : JsonAble (.dict items)) : JsonAble (.dict (setStr k v items)) := by
  rw [jsonAble_dict] at hi ⊢
  intro kv h
  rcases mem_setKey h with rfl | h
  · exact ⟨noSurrogates_lit k, hv⟩
  · exact hi kv h

/-! ## Comparing dicts of strings -/

/-- The items of one dict are looked up in the other. -/
theorem pyEqItems_iff {items items' : Items} :
    pyEqItems items items' = true ↔
      ∀ kv ∈ items, ∃ w, getKey kv.1 items' = some w ∧ pyEq kv.2 w = true := by
  induction items with
  | nil => simp [pyEqItems]
  | cons kv items ih =>
      rw [pyEqItems, Bool.and_eq_true, ih, List.forall_mem_cons]
      refine and_congr_left fun _ => ?_
      cases getKey kv.1 items' with
      | none => simp
      | some w => simp

/-- Comparing dict displays. -/
theorem pyEq_dictOf_iff {kvs kvs' : List (String × PyValue)} :
    pyEq (dictOf kvs) (dictOf kvs') = true ↔
      kvs.length = kvs'.length ∧
        ∀ kv ∈ kvs, ∃ w, kvs'.lookup kv.1 = some w ∧ pyEq kv.2 w = true := by
  have hlen (l : List (String × PyValue)) : (members l).length = l.length := by
    rw [members, strItems, List.length_map, List.length_map]
  rw [dictOf, dictOf, pyEq, Bool.and_eq_true, decide_eq_true_eq, hlen, hlen, pyEqItems_iff,
    forall_mem_members]
  simp only [← getStr_members]
  rfl

@[simp] theorem pyEq_int_iff {n m : ℤ} : pyEq (.int n) (.int m) = true ↔ n = m := decide_eq_true_iff

/-- For a dict of strings, `==` is sameness. -/
theorem pyEq_dict_iff {v : PyValue} {items' : Items} (hv : WF v) (hw : WF (.dict items'))
    (hstr : ∀ kv ∈ items', ∃ s, kv.2 = .str s) :
    pyEq v (.dict items') = true ↔ Same v (.dict items') := by
  constructor
  · intro h
    obtain ⟨items, rfl⟩ : ∃ items, v = .dict items := by
      cases v <;> first | exact ⟨_, rfl⟩ | (simp [pyEq] at h)
    rw [pyEq, Bool.and_eq_true, decide_eq_true_eq, pyEqItems_iff] at h
    refine same_dict_iff.mpr ⟨items', rfl, fun kv hkv => ?_, ?_⟩
    · obtain ⟨w, hg, he⟩ := h.2 kv hkv
      have hmem := mem_of_getKey hg
      obtain ⟨s, rfl⟩ := hstr _ hmem
      exact ⟨.str s, hmem, by rw [pyEq_str_iff.mp he]; rfl⟩
    · -- the keys on the left are among those on the right, and no fewer
      have hsub : items.map Prod.fst ⊆ items'.map Prod.fst := by
        intro k hk
        obtain ⟨kv, hkv, rfl⟩ := List.mem_map.mp hk
        obtain ⟨w, hg, _⟩ := h.2 kv hkv
        exact List.mem_map.mpr ⟨_, mem_of_getKey hg, rfl⟩
      have hperm := (((wf_dict _).mp hv).1.subperm hsub).perm_of_length_le
        (by rw [List.length_map, List.length_map, h.1])
      exact fun k hk => hperm.mem_iff.mpr hk
  · intro h
    obtain ⟨items, rfl⟩ := exists_dict_of_isDict ((isDict_of_same h).trans rfl)
    obtain ⟨_, he, hsub, hkeys⟩ := same_dict_iff.mp h
    cases he
    rw [pyEq, Bool.and_eq_true, decide_eq_true_eq, pyEqItems_iff]
    have hsub' : items.map Prod.fst ⊆ items'.map Prod.fst := by
      intro k hk
      obtain ⟨kv, hkv, rfl⟩ := List.mem_map.mp hk
      obtain ⟨w, hw', _⟩ := hsub kv hkv
      exact List.mem_map.mpr ⟨_, hw', rfl⟩
    constructor
    · have h1 := (((wf_dict _).mp hv).1.subperm hsub').length_le
      have h2 := (((wf_dict _).mp hw).1.subperm (fun k hk => hkeys k hk)).length_le
      rw [List.length_map, List.length_map] at h1 h2
      omega
    · intro kv hkv
      obtain ⟨w, hmem, hs⟩ := hsub kv hkv
      obtain ⟨s, rfl⟩ := hstr _ hmem
      exact ⟨_, getKey_of_mem ((wf_dict _).mp hw).1 hmem, pyEq_str_iff.mpr (eq_of_same_str hs)⟩

end Python.PyValue
