import Corrlog.Core.Memory

/-!
# Looking a record up

`get` asks every value that `all` returns for its `correctionId`, and stops at the
first one that has the wanted one.  `all` skips lines that are not JSON, but a line
may hold JSON that is no object, and that has no `get` method.

`findId_str` says what becomes of a list of any values: the search finds the first
record if everything before it is an object, and raises otherwise.
-/

namespace Corrlog

open Python

/-- The first object of the file with the identifier. -/
def firstRecord (b : Bytes) (correctionId : PyStr) : Option PyValue :=
  (values b).find? (hasId (.str correctionId))

/-- The values a search for the identifier passes: all up to the first object that has
it. -/
def passed (b : Bytes) (correctionId : PyStr) : List PyValue :=
  (values b).takeWhile fun v => !hasId (.str correctionId) v

/-- An object is asked for its member. -/
theorem getId_dict (items : Items) :
    getId (.dict items) = .ok ((getStr "correctionId" items).getD .none) := rfl

/-- Any other value has no `get`. -/
theorem getId_of_not_dict {v : PyValue} (h : v.isDict = false) :
    getId v = builtinError .AttributeError := by
  cases v with
  | dict items => cases h
  | _ => rfl

theorem hasId_of_not_dict {v : PyValue} (h : v.isDict = false) (id : PyStr) :
    hasId (.str id) v = false := by
  rw [hasId, getId_of_not_dict h]
  rfl

/-- The loop of `get` over any values. -/
theorem findId_str (id : PyStr) (vs : List PyValue) :
    findId (.str id) vs =
      if (vs.takeWhile fun v => !hasId (.str id) v).all PyValue.isDict then
        .ok (vs.find? (hasId (.str id)))
      else builtinError .AttributeError := by
  induction vs with
  | nil => rfl
  | cons v vs ih =>
      rw [findId, List.find?_cons, List.takeWhile_cons]
      cases hd : v.isDict with
      | false =>
          rw [hasId_of_not_dict hd, getId_of_not_dict hd]
          simp [hd, builtinError]
          rfl
      | true =>
          obtain ⟨items, rfl⟩ := PyValue.exists_dict_of_isDict hd
          rw [getId_dict]
          show (if hasId (.str id) (.dict items) then _ else _) = _
          cases hasId (.str id) (.dict items) with
          | true => rfl
          | false =>
              rw [if_neg Bool.false_ne_true, ih]
              simp [hd]

section

variable {b : Bytes}

/-- What becomes of `get` for a readable file. -/
theorem get_str (h : (decodeUtf8 b).isSome = true) (id : PyStr) :
    get (some b) (.str id) =
      if (passed b id).all PyValue.isDict then .ok (firstRecord b id)
      else builtinError .AttributeError := by
  rw [get, all_eq_values h]
  exact findId_str id (values b)

/-- `get` finds the first record if and only if every value before it is an object. -/
theorem get_eq_firstRecord_iff (h : (decodeUtf8 b).isSome = true) (id : PyStr) :
    get (some b) (.str id) = .ok (firstRecord b id) ↔ ∀ v ∈ passed b id, v.isDict = true := by
  rw [get_str h, ← List.all_eq_true]
  split
  next hall => exact iff_of_true rfl hall
  next hall => exact iff_of_false (fun h => by cases h) hall

/-- Values that were read are well-formed. -/
theorem wf_values {v : PyValue} (h : v ∈ values b) : v.WF := by
  obtain ⟨l, _, hl⟩ := List.mem_filterMap.mp h
  obtain ⟨s, _, hs⟩ := Option.bind_eq_some_iff.mp hl
  exact wf_loads hs

end

theorem mem_of_findId {c v : PyValue} {vs : List PyValue} (h : findId c vs = .ok (some v)) :
    v ∈ vs := by
  induction vs with
  | nil => cases h
  | cons w vs ih =>
      obtain ⟨a, _, h⟩ := bind_eq_ok.mp h
      split at h
      next => cases h; exact List.mem_cons_self
      next => exact List.mem_cons_of_mem _ (ih h)

/-- What is found has been read, so its keys are distinct. -/
theorem wf_of_get {file : Option Bytes} {c v : PyValue} (h : get file c = .ok (some v)) : v.WF := by
  obtain ⟨acc, hall, h⟩ := bind_eq_ok.mp h
  have hmem := mem_of_findId h
  cases file with
  | none =>
      cases hall
      cases hmem
  | some b =>
      rw [all_eq_values (isSome_of_all hall)] at hall
      cases hall
      exact wf_values hmem

end Corrlog
