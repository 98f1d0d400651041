import Corrlog.Core.Exact
import Corrlog.Core.Storage
import Corrlog.Linear.Firsts

/-!
# Two sinks

`MemorySink` refuses a record whose `correctionId` it has and keeps copies;
`JsonlSink` writes every record and parses the file on each read.  On the records
that constructors return they agree: the memory holds what the file holds without
every record after the first of its `correctionId`, and a search finds the same in
both (`two_sinks`).
-/

namespace Corrlog

open Python
open Linear (firsts)

/-! ## The code -/

/-- `record.get("correctionId")`. -/
def getId (r : PyValue) : Except PyErr PyValue := r.getMethod "correctionId" .none

/-- `any(r.get("correctionId") == record.get("correctionId") for r in records)`. -/
def anyWithId (records : List PyValue) (record : PyValue) : Except PyErr Bool :=
  match records with
  | [] => .ok false
  | r :: records => do
      let a ← getId r
      let b ← getId record
      if a.pyEq b then return true else anyWithId records record

/-- The loop of both `get` methods. -/
def findId (correctionId : PyValue) : List PyValue → Except PyErr (Option PyValue)
  | [] => .ok none
  | r :: records => do
      let a ← getId r
      if a.pyEq correctionId then return some r else findId correctionId records

/-- `MemorySink`. -/
structure MemorySink where
  records : List PyValue := []

/-- `MemorySink.append`: how it ends and what it leaves. -/
def MemorySink.append (m : MemorySink) (record : PyValue) : Except PyErr Unit × MemorySink :=
  match anyWithId m.records record with
  | .error e => (.error e, m)
  | .ok true => (raise .ValueError "duplicate correctionId", m)
  | .ok false => (.ok (), ⟨m.records ++ [record]⟩)

/-- `MemorySink.get`. -/
def MemorySink.get (m : MemorySink) (correctionId : PyValue) : Except PyErr (Option PyValue) :=
  findId correctionId m.records

/-- `MemorySink.all`. -/
def MemorySink.all (m : MemorySink) : List PyValue := m.records

/-- `JsonlSink.get`. -/
def get (file : Option Bytes) (correctionId : PyValue) : Except PyErr (Option PyValue) := do
  let (records, _) ← all file
  findId correctionId records

/-- Both sinks after the appends of a list, whatever they raise. -/
def fill (rs : List PyValue) : MemorySink × Option Bytes :=
  rs.foldl (fun s r => ((s.1.append r).2, (appendTo s.2 r).2)) (⟨[]⟩, none)

/-- The records have equal identifiers. -/
def sameId (r r' : PyValue) : Bool :=
  ((getId r).toOption.getD .none).pyEq ((getId r').toOption.getD .none)

/-- The record has the identifier. -/
def hasId (correctionId r : PyValue) : Bool :=
  ((getId r).toOption.getD .none).pyEq correctionId

/-! ## Records of constructors -/

/-- A constructor has returned the record. -/
def FromConstructor (r : PyValue) : Prop :=
  ∃ (P : Platform) (privateKey : P.PrivateKey) (c : Call), (c.outcome privateKey).result = .ok r

/-- What both sinks rely on. -/
structure Storable (r : PyValue) (id : PyStr) : Prop where
  isDict : r.isDict = true
  id_eq : getId r = .ok (.str id)
  line : ∃ line, recordLine r = .ok line
  reloaded_eq : reloaded r = listed r

theorem jsonOf_of_jsonAble {v : PyValue} (h : v.JsonAble) : JsonOf pairFree v := by
  induction v with
  | str s => exact pairFree_of_noSurrogates h
  | list xs ih =>
      rw [PyValue.jsonAble_list] at h
      exact (jsonOf_list xs).mpr fun x hx => ih x hx (h x hx)
  | tuple xs ih =>
      rw [PyValue.jsonAble_tuple] at h
      exact (jsonOf_tuple xs).mpr fun x hx => ih x hx (h x hx)
  | dict items ih =>
      obtain ⟨kvs, rfl, hkvs⟩ := PyValue.exists_strItems h
      refine (jsonOf_strItems kvs).mpr fun kv hkv => ⟨pairFree_of_noSurrogates (hkvs kv hkv).1, ?_⟩
      exact ih _ (PyValue.mem_strItems.mpr hkv) (hkvs kv hkv).2
  | other o => exact absurd h (PyValue.not_jsonAble_other o)
  | none => rfl
  | bool b => rfl
  | int n => exact h
  | float x => exact h

/-- What a constructor returns can be stored. -/
theorem FromConstructor.storable {r : PyValue} (h : FromConstructor r) : ∃ id, Storable r id := by
  obtain ⟨P, privateKey, c, h⟩ := h
  obtain ⟨items, kid, data, _, hwf, _, _, _, _, rfl, hvalid⟩ := Call.returned h
  have hrwf : (PyValue.dict (completed privateKey (.str kid) data items)).WF :=
    signed_wf (PyValue.wf_str kid) hwf _
  have hj := (jsonAble_iff_canonicalJson hrwf).mpr ((validateRecord_eq_ok P).mp hvalid).2
  obtain ⟨w, hw, id, rfl, _⟩ := ((typed_of_valid hvalid).1 ⟨"correctionId", true, NonEmpty⟩
    (by simp [recordFields])).exists_of_required rfl
  have hfree := jsonOf_of_jsonAble hj
  refine ⟨id, rfl, ?_, ?_, ?_⟩
  · exact PyValue.getMethod_eq_ok.mpr ⟨_, rfl, by rw [hw]; rfl⟩
  · exact recordLine_serializable.mpr (serializable_of_jsonOf hfree)
  · exact reloaded_eq_listed hrwf hfree

/-- A function of the values is applied to what is looked up. -/
theorem getKey_map {f : PyValue → PyValue} (k : PyKey) (items : Items) :
    getKey k (items.map fun kv => (kv.1, f kv.2)) = (getKey k items).map f := by
  induction items with
  | nil => rfl
  | cons kv items ih =>
      obtain ⟨k', v⟩ := kv
      rw [List.map_cons, getKey, getKey]
      split
      next => rfl
      next => exact ih

namespace Storable

variable {r r' : PyValue} {id id' : PyStr}

/-- The identifier is read back. -/
theorem id_listed (h : Storable r id) : getId (listed r) = .ok (.str id) := by
  obtain ⟨items, rfl, hid⟩ := PyValue.getMethod_eq_ok.mp h.id_eq
  rw [getId, listed_dict]
  refine PyValue.getMethod_eq_ok.mpr ⟨_, rfl, ?_⟩
  rw [getStr] at hid ⊢
  rw [getKey_map]
  cases hg : getKey (.str (lit "correctionId")) items with
  | none =>
      rw [hg] at hid
      cases hid
  | some w =>
      rw [hg] at hid
      rw [Option.map_some, Option.getD_some, show w = .str id from hid]
      rfl

/-- Identifiers are compared as strings. -/
theorem sameId_eq (h : Storable r id) (h' : Storable r' id') : sameId r r' = decide (id = id') := by
  rw [sameId, h.id_eq, h'.id_eq]
  rfl

/-- A record that is read back has its identifier. -/
theorem sameId_listed (h : Storable r id) (h' : Storable r' id') :
    sameId (listed r) (listed r') = sameId r r' := by
  rw [sameId, h.id_listed, h'.id_listed, h.sameId_eq h']
  rfl

theorem hasId_eq (h : Storable r id) (correctionId : PyValue) :
    hasId correctionId r = PyValue.pyEq (.str id) correctionId := by
  rw [hasId, h.id_eq]
  rfl

theorem hasId_listed (h : Storable r id) (correctionId : PyValue) :
    hasId correctionId (listed r) = hasId correctionId r := by
  rw [hasId, h.id_listed, h.hasId_eq]
  rfl

end Storable

/-- Records that both sinks can take. -/
def AllStorable (rs : List PyValue) : Prop := ∀ r ∈ rs, ∃ id, Storable r id

section

variable {rs : List PyValue}

theorem anyWithId_eq (h : AllStorable rs) {record : PyValue} {id : PyStr}
    (hrecord : Storable record id) : anyWithId rs record = .ok (rs.any (sameId · record)) := by
  induction rs with
  | nil => rfl
  | cons r rs ih =>
      obtain ⟨⟨i, hr⟩, hrs⟩ := List.forall_mem_cons.mp h
      rw [anyWithId, hr.id_eq, hrecord.id_eq, List.any_cons, hr.sameId_eq hrecord]
      show (if decide (i = id) = true then .ok true else anyWithId rs record) = _
      rw [ih hrs]
      cases decide (i = id) <;> rfl

/-- The search raises nothing if every record has an identifier. -/
theorem findId_eq {correctionId : PyValue} (h : ∀ r ∈ rs, ∃ id, getId r = .ok (.str id)) :
    findId correctionId rs = .ok (rs.find? (hasId correctionId)) := by
  induction rs with
  | nil => rfl
  | cons r rs ih =>
      obtain ⟨⟨i, hr⟩, hrs⟩ := List.forall_mem_cons.mp h
      have hid : hasId correctionId r = PyValue.pyEq (.str i) correctionId := by
        rw [hasId, hr]
        rfl
      rw [findId, hr, List.find?_cons, hid]
      show (if PyValue.pyEq (.str i) correctionId = true then .ok (some r)
        else findId correctionId rs) = _
      rw [ih hrs]
      cases PyValue.pyEq (.str i) correctionId <;> rfl

theorem AllStorable.sublist {l : List PyValue} (h : AllStorable rs) (hl : l.Sublist rs) :
    AllStorable l := fun r hr => h r (hl.subset hr)

/-- `MemorySink.append` takes the first record of each identifier. -/
theorem append_firsts (h : AllStorable rs) {r : PyValue} {id : PyStr} (hr : Storable r id) :
    ((MemorySink.mk (firsts sameId rs)).append r).2.records = firsts sameId (rs ++ [r]) := by
  have hany : (firsts sameId rs).any (sameId · r) = rs.any (sameId · r) := by
    refine Linear.any_firsts fun a ha c hc hac hcr => ?_
    obtain ⟨i, ha⟩ := h a ha
    obtain ⟨j, hc⟩ := h c hc
    rw [ha.sameId_eq hc, decide_eq_true_eq] at hac
    rw [ha.sameId_eq hr, hac, ← hc.sameId_eq hr, hcr]
  rw [MemorySink.append, anyWithId_eq (h.sublist (Linear.firsts_sublist rs)) hr, hany,
    Linear.firsts_concat]
  cases rs.any (sameId · r) with
  | true => exact (List.append_nil _).symm
  | false => rfl

/-- What the sinks hold. -/
theorem fill_spec (h : AllStorable rs) :
    (fill rs).1.records = firsts sameId rs ∧ all (fill rs).2 = .ok (rs.map listed, 0) := by
  induction rs using List.reverseRecOn with
  | nil => exact ⟨rfl, rfl⟩
  | append_singleton rs r ih =>
      have hrs : AllStorable rs := h.sublist (List.sublist_append_left rs [r])
      obtain ⟨hmem, hfile⟩ := ih hrs
      obtain ⟨id, hr⟩ := h r (List.mem_append_right _ List.mem_cons_self)
      obtain ⟨line, hline⟩ := hr.line
      rw [fill, List.foldl_append, List.foldl_cons, List.foldl_nil, ← fill]
      constructor
      · rw [← append_firsts hrs hr, ← hmem]
      · have hall := all_append hfile hr.isDict hline
        rw [appendTo, hline, List.map_append, List.map_singleton, ← hr.reloaded_eq]
        exact hall

/-- What is found in the file is what is found in memory. -/
theorem findId_firsts (h : AllStorable rs) (correctionId : PyValue) :
    (findId correctionId (firsts sameId rs)).map (Option.map listed) =
      findId correctionId (rs.map listed) := by
  have hfirsts : ∀ r ∈ firsts sameId rs, ∃ id, getId r = .ok (.str id) := by
    intro r hr
    obtain ⟨id, hr⟩ := h r ((Linear.firsts_sublist rs).subset hr)
    exact ⟨id, hr.id_eq⟩
  have hlisted : ∀ r ∈ rs.map listed, ∃ id, getId r = .ok (.str id) := by
    intro _ hmem
    obtain ⟨r, hr, rfl⟩ := List.mem_map.mp hmem
    obtain ⟨id, hid⟩ := h r hr
    exact ⟨id, hid.id_listed⟩
  have hsame : (firsts sameId rs).find? (hasId correctionId) = rs.find? (hasId correctionId) := by
    refine Linear.find?_firsts fun a ha b hb hab => ?_
    obtain ⟨i, ha⟩ := h a ha
    obtain ⟨j, hb⟩ := h b hb
    rw [ha.sameId_eq hb, decide_eq_true_eq] at hab
    rw [ha.hasId_eq, hb.hasId_eq, hab]
  have hcomp : rs.find? (hasId correctionId ∘ listed) = rs.find? (hasId correctionId) := by
    refine List.find?_congr fun r hr => ?_
    obtain ⟨id, hr⟩ := h r hr
    exact hr.hasId_listed correctionId
  rw [findId_eq hfirsts, findId_eq hlisted, hsame, List.find?_map, hcomp]
  rfl

end

/-- A record that is refused leaves the sink as it is. -/
theorem MemorySink.append_error {m : MemorySink} {r : PyValue} {e : PyErr}
    (h : (m.append r).1 = .error e) : (m.append r).2 = m := by
  rw [append] at h ⊢
  split
  next => rfl
  next => rfl
  next hany =>
    rw [hany] at h
    cases h

/-- After appends of any records that constructors have returned, the memory holds
what the file holds without every record after the first of its identifier, both find
the same, and no two records in memory have one identifier.  An append that is refused
changes nothing. -/
theorem two_sinks :
    (∀ rs, (∀ r ∈ rs, FromConstructor r) →
      all (fill rs).2 = .ok (rs.map listed, 0) ∧
      (fill rs).1.all.map listed = firsts sameId (rs.map listed) ∧
      (∀ correctionId, ((fill rs).1.get correctionId).map (Option.map listed) =
        get (fill rs).2 correctionId) ∧
      (fill rs).1.all.Pairwise fun r r' => sameId r r' = false) ∧
    ∀ (m : MemorySink) r e, (m.append r).1 = .error e → (m.append r).2 = m := by
  refine ⟨fun rs h => ?_, fun m r e => MemorySink.append_error⟩
  · have hs : AllStorable rs := fun r hr => (h r hr).storable
    obtain ⟨hmem, hfile⟩ := fill_spec hs
    refine ⟨hfile, ?_, fun correctionId => ?_, ?_⟩
    · rw [MemorySink.all, hmem]
      refine (Linear.firsts_map fun a ha b hb => ?_).symm
      obtain ⟨i, ha⟩ := hs a ha
      obtain ⟨j, hb⟩ := hs b hb
      exact ha.sameId_listed hb
    · rw [MemorySink.get, hmem, findId_firsts hs, get, hfile]
      rfl
    · rw [MemorySink.all, hmem]
      exact Linear.pairwise_firsts rs

/-- One record twice, and an append that is refused. -/
theorem two_sinks_vectors :
    (∃ r, (record Vector.platform () Vector.env (Vector.integerArgs 1)).result = .ok r ∧
      all (fill [r, r]).2 = .ok ([listed r, listed r], 0) ∧
      (fill [r, r]).1.all.map listed = firsts sameId [listed r, listed r]) ∧
    ((MemorySink.mk [.dict []]).append (.dict [])).2 = ⟨[.dict []]⟩ := by
  constructor
  · have hok : (record Vector.platform () Vector.env (Vector.integerArgs 1)).result.isOk =
        true := by
      decide +kernel
    obtain ⟨r, hr⟩ : ∃ r, (record Vector.platform () Vector.env (Vector.integerArgs 1)).result =
      .ok r := ⟨_, Vector.result_eq_returned hok⟩
    have hfrom : FromConstructor r := ⟨_, _, .record _ _, hr⟩
    obtain ⟨hfile, hmem, _, _⟩ := two_sinks.1 [r, r] fun r' hr' => by
      rwa [List.eq_of_mem_replicate (n := 2) hr']
    exact ⟨r, hr, hfile, hmem⟩
  · exact two_sinks.2 ⟨[.dict []]⟩ (.dict []) _ rfl

end Corrlog
