import Corrlog.Core.Accepts

/-!
# What a record says

A constructor starts with a dict display and then sets single fields of its objects.
Setting one leaves all others alone, so what is returned has the arguments at their
places (`record_entries`, `retract_entries`).
-/

namespace Corrlog

open Python
open JsonSchema

/-- `r[k1][k2]`. -/
def entry (r : PyValue) (k1 k2 : String) : Except PyErr PyValue := r.getItem k1 >>= (·.getItem k2)

theorem getItem_dict_congr {items items' : Items} {k : String}
    (h : getStr k items' = getStr k items) :
    (PyValue.dict items').getItem k = (PyValue.dict items).getItem k := by
  rw [PyValue.getItem, PyValue.getItem, h]

/-- An entry depends on the member it is in. -/
theorem entry_dict_congr {items items' : Items} {k1 : String}
    (h : getStr k1 items' = getStr k1 items) (k2 : String) :
    entry (.dict items') k1 k2 = entry (.dict items) k1 k2 := by
  rw [entry, entry, getItem_dict_congr h]

/-- What setting a field of an object leaves. -/
structure Sets (k1 k2 : String) (b b' : PyValue) : Prop where
  top : ∀ k, k ≠ k1 → b'.getItem k = b.getItem k
  entry : ∀ j1 j2, j1 ≠ k1 ∨ j2 ≠ k2 → entry b' j1 j2 = entry b j1 j2

theorem Sets.refl (k1 k2 : String) (b : PyValue) : Sets k1 k2 b b := ⟨fun _ _ => rfl, fun _ _ _ => rfl⟩

/-- An assignment within a member sets one entry and leaves the others. -/
theorem sets_setIn {b b' v : PyValue} {k1 k2 : String} (h : setIn b k1 k2 v = .ok b') :
    Sets k1 k2 b b' ∧ entry b' k1 k2 = .ok v := by
  obtain ⟨items, inner, rfl, hget, rfl⟩ := setIn_eq_ok.mp h
  have hself : (PyValue.dict (setStr k1 (.dict (setStr k2 v inner)) items)).getItem k1 =
      .ok (.dict (setStr k2 v inner)) :=
    PyValue.getItem_eq_ok.mpr ⟨_, rfl, getStr_setStr_self _ _ _⟩
  have hold : (PyValue.dict items).getItem k1 = .ok (.dict inner) :=
    PyValue.getItem_eq_ok.mpr ⟨_, rfl, hget⟩
  refine ⟨⟨fun k hk => getItem_dict_congr (getStr_setStr_ne hk _ _), fun j1 j2 hj => ?_⟩, ?_⟩
  · rcases eq_or_ne j1 k1 with rfl | hne
    · have hj2 : j2 ≠ k2 := hj.resolve_left (not_not.mpr rfl)
      rw [entry, entry, hself, hold]
      exact getItem_dict_congr (getStr_setStr_ne hj2 _ _)
    · exact entry_dict_congr (getStr_setStr_ne hne _ _) j2
  · rw [entry, hself]
    exact PyValue.getItem_eq_ok.mpr ⟨_, rfl, getStr_setStr_self _ _ _⟩

theorem sets_setInIf {cond : Bool} {b b' v : PyValue} {k1 k2 : String}
    (h : setInIf cond b k1 k2 v = .ok b') :
    Sets k1 k2 b b' ∧ (cond = true → entry b' k1 k2 = .ok v) := by
  cases cond with
  | true => exact ⟨(sets_setIn h).1, fun _ => (sets_setIn h).2⟩
  | false =>
      cases h
      exact ⟨.refl k1 k2 b, (nomatch ·)⟩

variable {P : Platform} {privateKey : P.PrivateKey}

/-- A hash sets one entry and leaves the others.  There is none of `None`. -/
theorem sets_setHash {b b' v : PyValue} {k1 k2 : String} (h : setHash P b k1 k2 v = .ok b') :
    Sets k1 k2 b b' ∧
      (isNone v = false → ∃ data, contentBytes P v = .ok data ∧
        entry b' k1 k2 = .ok (hashObject P data)) := by
  rw [setHash.eq_def] at h
  split at h
  next =>
    cases h
    refine ⟨.refl k1 k2 b, fun hnone => ?_⟩
    cases hnone
  next =>
    obtain ⟨data, hdata, h⟩ := bind_eq_ok.mp h
    obtain ⟨hs, he⟩ := sets_setIn h
    exact ⟨hs, fun _ => ⟨data, hdata, he⟩⟩

/-- Signing touches the signature only. -/
theorem getItem_completed {kid : PyValue} {data : Bytes} {items : Items} {k : String}
    (hk : k ≠ "signature") : (PyValue.dict (completed privateKey kid data items)).getItem k =
      (PyValue.dict items).getItem k :=
  getItem_dict_congr (getStr_completed hk)

/-- Signing changes the entries of the signature only. -/
theorem entry_completed {kid : PyValue} {data : Bytes} {items : Items} {k1 : String}
    (hk : k1 ≠ "signature") (k2 : String) :
    entry (.dict (completed privateKey kid data items)) k1 k2 = entry (.dict items) k1 k2 :=
  entry_dict_congr (getStr_completed hk) k2

theorem getItem_dictOf {kvs : List (String × PyValue)} {k : String} {v : PyValue}
    (h : kvs.lookup k = some v) : (dictOf kvs).getItem k = .ok v :=
  PyValue.getItem_eq_ok.mpr ⟨_, rfl, (getStr_members _ _).trans h⟩

/-- An entry of a literal dict. -/
theorem entry_dictOf {kvs kvs' : List (String × PyValue)} {k1 k2 : String} {v : PyValue}
    (h : kvs.lookup k1 = some (dictOf kvs')) (h' : kvs'.lookup k2 = some v) :
    entry (dictOf kvs) k1 k2 = .ok v := by
  rw [entry, getItem_dictOf h]
  exact getItem_dictOf h'

/-- The arguments of `record` in the record it returns. -/
structure RecordEntries (privateKey : P.PrivateKey) (env : Env) (a : RecordArgs) (r : PyValue) :
    Prop where
  correctionId : r.getItem "correctionId" = .ok (a.idField env)
  agentId : entry r "agent" "id" = .ok a.agentId.val
  agentKey : entry r "agent" "publicKey" = .ok (.str (keyText P privateKey))
  agentName : truthy a.agentName.val = true → entry r "agent" "name" = .ok a.agentName.val
  principal : r.getItem "principal" = .ok a.principalField
  actionType : entry r "action" "type" = .ok a.actionType.val
  actionTarget : truthy a.actionTarget.val = true →
    entry r "action" "target" = .ok a.actionTarget.val
  trigger : r.getItem "trigger" = .ok (.str (lit "supersede"))
  timestamp : r.getItem "timestamp" = .ok (a.timestampField env)
  inputHash : isNone a.actionArgs.val = false → ∃ data, contentBytes P a.actionArgs.val = .ok data ∧
    entry r "metadata" "inputHash" = .ok (hashObject P data)
  outputHash : isNone a.actionResult.val = false →
    ∃ data, contentBytes P a.actionResult.val = .ok data ∧
      entry r "metadata" "outputHash" = .ok (hashObject P data)

/-- The entries of what `record` returns. -/
theorem record_entries {env : Env} {a : RecordArgs} {r : PyValue}
    (h : (record P privateKey env a).result = .ok r) : RecordEntries privateKey env a r := by
  obtain ⟨items, kid, sig, hb, _, _, _, _, _, rfl, _⟩ := Call.returned (c := .record env a) h
  obtain ⟨b1, h1, hb⟩ := bind_eq_ok.mp hb
  obtain ⟨b2, h2, hb⟩ := bind_eq_ok.mp hb
  obtain ⟨_, _, hb⟩ := bind_eq_ok.mp hb
  obtain ⟨_, _, hb⟩ := bind_eq_ok.mp hb
  obtain ⟨b3, h3, h4⟩ := bind_eq_ok.mp hb
  obtain ⟨s1, e1⟩ := sets_setInIf h1
  obtain ⟨s2, e2⟩ := sets_setInIf h2
  obtain ⟨s3, e3⟩ := sets_setHash h3
  obtain ⟨s4, e4⟩ := sets_setHash h4
  have htop {k : String} (hsig : k ≠ "signature") (hagent : k ≠ "agent") (haction : k ≠ "action")
      (hmeta : k ≠ "metadata") :
      (PyValue.dict (completed privateKey (.str kid) sig items)).getItem k = _ :=
    (getItem_completed hsig).trans ((s4.top k hmeta).trans ((s3.top k hmeta).trans
      ((s2.top k haction).trans (s1.top k hagent))))
  have hentry {k1 k2 : String} (hsig : k1 ≠ "signature") (hmeta : k1 ≠ "metadata") :
      entry (.dict (completed privateKey (.str kid) sig items)) k1 k2 = entry b2 k1 k2 :=
    (entry_completed hsig k2).trans ((s4.entry k1 k2 (.inl hmeta)).trans
      (s3.entry k1 k2 (.inl hmeta)))
  have hstart {k1 k2 : String} (hsig : k1 ≠ "signature") (hmeta : k1 ≠ "metadata")
      (hname : k2 ≠ "name") (htarget : k2 ≠ "target") :
      entry (.dict (completed privateKey (.str kid) sig items)) k1 k2 = _ :=
    (hentry hsig hmeta).trans ((s2.entry k1 k2 (.inr htarget)).trans (s1.entry k1 k2 (.inr hname)))
  exact {
    correctionId := (htop (by decide) (by decide) (by decide) (by decide)).trans (getItem_dictOf rfl)
    agentId := (hstart (by decide) (by decide) (by decide) (by decide)).trans (entry_dictOf rfl rfl)
    agentKey := (hstart (by decide) (by decide) (by decide) (by decide)).trans (entry_dictOf rfl rfl)
    agentName := fun ht => (hentry (by decide) (by decide)).trans
      ((s2.entry _ _ (.inl (by decide))).trans (e1 ht))
    principal := (htop (by decide) (by decide) (by decide) (by decide)).trans (getItem_dictOf rfl)
    actionType := (hstart (by decide) (by decide) (by decide) (by decide)).trans
      (entry_dictOf rfl rfl)
    actionTarget := fun ht => (hentry (by decide) (by decide)).trans (e2 ht)
    trigger := (htop (by decide) (by decide) (by decide) (by decide)).trans (getItem_dictOf rfl)
    timestamp := (htop (by decide) (by decide) (by decide) (by decide)).trans (getItem_dictOf rfl)
    inputHash := fun hn =>
      let ⟨data, hdata, he⟩ := e3 hn
      ⟨data, hdata, (entry_completed (by decide) _).trans
        ((s4.entry _ _ (.inr (by decide))).trans he)⟩
    outputHash := fun hn =>
      let ⟨data, hdata, he⟩ := e4 hn
      ⟨data, hdata, (entry_completed (by decide) _).trans he⟩ }

/-- The arguments of `retract` in the correction it returns. -/
structure RetractEntries (privateKey : P.PrivateKey) (env : Env) (a : RetractArgs) (r : PyValue) :
    Prop where
  correctionId : r.getItem "correctionId" = .ok (a.idField env)
  agentId : entry r "agent" "id" = .ok a.agentId.val
  agentKey : entry r "agent" "publicKey" = .ok (.str (keyText P privateKey))
  principal : r.getItem "principal" = .ok a.principalField
  supersedes : ∃ sup, supersedesField P a.priorRecord.val = .ok sup ∧
    r.getItem "supersedes" = .ok sup
  reason : r.getItem "reason" = .ok a.reason.val
  trigger : r.getItem "trigger" = .ok a.trigger.val
  fixType : entry r "fix" "type" = .ok a.fixType.val
  fixNote : truthy a.fixNote.val = true → entry r "fix" "note" = .ok a.fixNote.val
  contentHash : isNone a.correctedContent.val = false →
    ∃ data, contentBytes P a.correctedContent.val = .ok data ∧
      entry r "fix" "contentHash" = .ok (hashObject P data)
  source : isNone a.sourceType.val = false → entry r "fix" "source" =
    .ok (dictOf [("type", a.sourceType.val), ("reference", a.sourceReference.val)])
  timestamp : r.getItem "timestamp" = .ok (a.timestampField env)
  metadata : r.getItem "metadata" = .ok a.metadataField

/-- The entries of what `retract` returns. -/
theorem retract_entries {env : Env} {a : RetractArgs} {r : PyValue}
    (h : (retract P privateKey env a).result = .ok r) : RetractEntries privateKey env a r := by
  obtain ⟨items, kid, sig, hb, _, _, _, _, _, rfl, _⟩ := Call.returned (c := .retract env a) h
  obtain ⟨_, _, hb⟩ := bind_eq_ok.mp hb
  obtain ⟨sup, hsup, hb⟩ := bind_eq_ok.mp hb
  obtain ⟨action, _, hb⟩ := bind_eq_ok.mp hb
  obtain ⟨actionType, _, hb⟩ := bind_eq_ok.mp hb
  obtain ⟨b1, h1, hb⟩ := bind_eq_ok.mp hb
  obtain ⟨_, _, hb⟩ := bind_eq_ok.mp hb
  obtain ⟨b2, h2, h3⟩ := bind_eq_ok.mp hb
  obtain ⟨s1, e1⟩ := sets_setInIf h1
  obtain ⟨s2, e2⟩ := sets_setHash h2
  obtain ⟨s3, e3⟩ := sets_setInIf h3
  have htop {k : String} (hsig : k ≠ "signature") (hfix : k ≠ "fix") :
      (PyValue.dict (completed privateKey (.str kid) sig items)).getItem k = _ :=
    (getItem_completed hsig).trans ((s3.top k hfix).trans ((s2.top k hfix).trans (s1.top k hfix)))
  have hstart {k1 k2 : String} (hsig : k1 ≠ "signature") (hnote : k2 ≠ "note")
      (hhash : k2 ≠ "contentHash") (hsource : k2 ≠ "source") :
      entry (.dict (completed privateKey (.str kid) sig items)) k1 k2 = _ :=
    (entry_completed hsig k2).trans ((s3.entry k1 k2 (.inr hsource)).trans
      ((s2.entry k1 k2 (.inr hhash)).trans (s1.entry k1 k2 (.inr hnote))))
  exact {
    correctionId := (htop (by decide) (by decide)).trans (getItem_dictOf rfl)
    agentId := (hstart (by decide) (by decide) (by decide) (by decide)).trans (entry_dictOf rfl rfl)
    agentKey := (hstart (by decide) (by decide) (by decide) (by decide)).trans (entry_dictOf rfl rfl)
    principal := (htop (by decide) (by decide)).trans (getItem_dictOf rfl)
    supersedes := ⟨sup, hsup, (htop (by decide) (by decide)).trans (getItem_dictOf rfl)⟩
    reason := (htop (by decide) (by decide)).trans (getItem_dictOf rfl)
    trigger := (htop (by decide) (by decide)).trans (getItem_dictOf rfl)
    fixType := (hstart (by decide) (by decide) (by decide) (by decide)).trans (entry_dictOf rfl rfl)
    fixNote := fun ht => (entry_completed (by decide) _).trans ((s3.entry _ _ (.inr (by decide))).trans
      ((s2.entry _ _ (.inr (by decide))).trans (e1 ht)))
    contentHash := fun hn =>
      let ⟨data, hdata, he⟩ := e2 hn
      ⟨data, hdata, (entry_completed (by decide) _).trans
        ((s3.entry _ _ (.inr (by decide))).trans he)⟩
    source := fun hn => (entry_completed (by decide) _).trans (e3 (by rw [hn]; rfl))
    timestamp := (htop (by decide) (by decide)).trans (getItem_dictOf rfl)
    metadata := (htop (by decide) (by decide)).trans (getItem_dictOf rfl) }

/-! ## Names -/

/-- A string that can name something. -/
def IsNameValue (v : PyValue) : Prop := ∃ s, v = .str s ∧ IsName s

theorem isNameValue_str {s : PyStr} : IsNameValue (.str s) ↔ IsName s := by
  constructor
  · rintro ⟨t, ht, h⟩
    cases ht
    exact h
  · exact fun h => ⟨s, rfl, h⟩

/-- A nonempty field of a record that has a JSON text. -/
theorem isNameValue_entry {items : Items} {k1 k2 : String} {fields : List Field} {w v : PyValue}
    (hj : (PyValue.dict items).JsonAble) (hw : getStr k1 items = some w) (hr : Record fields w)
    (hf : ⟨k2, true, NonEmpty⟩ ∈ fields) (he : entry (.dict items) k1 k2 = .ok v) :
    IsNameValue v := by
  obtain ⟨inner, rfl, hfields⟩ := hr
  obtain ⟨u, hu, hne⟩ := (hfields _ hf).exists_of_required rfl
  have hentry : entry (.dict items) k1 k2 = .ok u := by
    rw [entry, PyValue.getItem_eq_ok.mpr ⟨_, rfl, hw⟩]
    exact PyValue.getItem_eq_ok.mpr ⟨_, rfl, hu⟩
  obtain rfl := Except.ok.inj (hentry.symm.trans he)
  have hstr := hne
  obtain ⟨s, rfl, _⟩ := hstr
  exact ⟨s, rfl, isName_of_signable hne
    (PyValue.jsonAble_of_getKey (PyValue.jsonAble_of_getKey hj hw) hu)⟩

/-- A record is returned only for names. -/
theorem record_names {env : Env} {a : RecordArgs} {r : PyValue}
    (h : (record P privateKey env a).result = .ok r) :
    IsNameValue a.agentId.val ∧ IsNameValue a.principalId.val ∧ IsNameValue a.actionType.val := by
  obtain ⟨items, rfl, htyped, haction⟩ := record_isAction h
  obtain ⟨_, _, _, _, _, hvalid⟩ := finish_returned h
  have hj := (jsonAble_iff_canonicalJson (Call.wf (c := .record env a) h)).mpr
    ((validateRecord_eq_ok P).mp hvalid).2
  have he := record_entries h
  have hagentField : (⟨"agent", true, Record agentFields⟩ : Field) ∈ recordFields P.isDateTime := by
    simp [recordFields]
  have hprincipalField :
      (⟨"principal", true, Record principalFields⟩ : Field) ∈ recordFields P.isDateTime := by
    simp [recordFields]
  obtain ⟨w, hw, hagent⟩ := (htyped _ hagentField).exists_of_required rfl
  obtain ⟨w', hw', hprincipal⟩ := (htyped _ hprincipalField).exists_of_required rfl
  obtain ⟨w'', hw''⟩ := haction.action
  have hact := htyped.kind_of (f := ⟨"action", false, Record actionFields⟩)
    (by simp [recordFields]) hw''
  have hid : entry (.dict items) "principal" "id" = .ok a.principalId.val := by
    rw [entry, he.principal]
    show a.principalField.getItem "id" = _
    rw [Common.principalField]
    exact getItem_dictOf rfl
  exact ⟨isNameValue_entry hj hw hagent (by simp [agentFields]) he.agentId,
    isNameValue_entry hj hw' hprincipal (by simp [principalFields]) hid,
    isNameValue_entry hj hw'' hact (by simp [actionFields]) he.actionType⟩

end Corrlog
