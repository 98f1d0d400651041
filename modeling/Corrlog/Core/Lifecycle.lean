import Corrlog.Core.Checkpoint
import Corrlog.Core.Constructors

/-!
# The life of a record

Whatever the constructors return verifies, and corrections of corrections, from
the record itself or from what is read back of it, make a chain with a
checkpoint (`lifecycle`).
-/

namespace Corrlog

open Python
open Linear (History)

variable {P : Platform} {privateKey : P.PrivateKey}

/-- The value itself, or what is read back from one of its wire forms. -/
def Reread (v : PyValue) (w : PyObject) : Prop :=
  w.val = v ∨ ∃ b, Wire v b ∧ loadsBytes Decoder.default b = some w.val

/-- A record that is read again is the same JSON value. -/
theorem reread_same {v : PyValue} {w : PyObject} (hv : v.WF) (hj : v.JsonAble) (h : Reread v w) :
    PyValue.Same v w.val ∧ canonicalJson w.val = canonicalJson v := by
  rcases h with rfl | ⟨b, hb, hw⟩
  · exact ⟨PyValue.same_refl hj, rfl⟩
  · obtain ⟨w', hw', _, hs, hc⟩ := wire_read Decoder.default_plain hv hj hb
    rw [hw, Option.some.injEq] at hw'
    exact hw' ▸ ⟨hs, hc⟩

/-! ## Returned records -/

/-- A record as a constructor returns it. -/
def Returned (privateKey : P.PrivateKey) (sup : Option PyValue) (r : PyValue) : Prop :=
  ∃ items agent kid data, r = .dict (completed privateKey kid data items) ∧
    Body privateKey sup items agent ∧ kid.WF ∧
    canonicalJson (.dict (blanked privateKey kid items)) = .ok data ∧
    validateRecord P r = .ok ()

/-- What `_sign` returns, once the schema has accepted it. -/
theorem returned_of_sign {b kid r : PyValue} {data : Bytes} {sup : Option PyValue}
    (hb : IsBody privateKey sup b) (hk : kid.WF) (hsign : sign P b privateKey kid = .ok (data, r))
    (hvalid : validateRecord P r = .ok ()) : Returned privateKey sup r := by
  obtain ⟨items, agent, rfl, hbody⟩ := hb
  obtain ⟨hcanon, rfl⟩ := sign_eq_ok hsign
  exact ⟨items, agent, kid, data, rfl, hbody, hk, hcanon, hvalid⟩

/-- The first record of a chain follows nothing. -/
theorem record_returned {env : Env} {a : RecordArgs} {r : PyValue}
    (h : (record P privateKey env a).result = .ok r) : Returned privateKey none r := by
  obtain ⟨b, data, hb, _, hsign, hvalid⟩ := finish_returned h
  have hkid := orDefault_wf a.kid.wf (PyValue.wf_str (keyText P privateKey))
  exact returned_of_sign (recordBody_isBody hb) hkid hsign hvalid

theorem unknown_returned {env : Env} {a : UnknownArgs} {r : PyValue}
    (h : (unknown P privateKey env a).result = .ok r) : Returned privateKey none r := by
  obtain ⟨b, data, hb, _, hsign, hvalid⟩ := finish_returned h
  have hkid := orDefault_wf a.kid.wf (PyValue.wf_str (keyText P privateKey))
  exact returned_of_sign (unknownBody_isBody hb) hkid hsign hvalid

/-- What `retract` returns follows the record it was made of. -/
theorem retract_returned {env : Env} {a : RetractArgs} {r : PyValue}
    (h : (retract P privateKey env a).result = .ok r) :
    ∃ sup, supersedesField P a.priorRecord.val = .ok sup ∧ Returned privateKey (some sup) r := by
  obtain ⟨b, data, hb, _, hsign, hvalid⟩ := finish_returned h
  obtain ⟨sup, hsup, hbody⟩ := retractBody_isBody hb
  exact ⟨sup, hsup, returned_of_sign hbody (orDefault_wf a.kid.wf (PyValue.wf_str _)) hsign hvalid⟩

/-- What is returned is verified, if signatures verify. -/
theorem Returned.verified {sup : Option PyValue} {r : PyValue} (h : Returned privateKey sup r)
    (hsign : ∀ data, P.verify (P.publicKey privateKey) (P.sign privateKey data) data = true) :
    ∃ items id agent sigMeta sig data, r = .dict items ∧ r.WF ∧ getStr "supersedes" items = sup ∧
      Verified P items id agent sigMeta (P.publicKey privateKey) sig data := by
  obtain ⟨items, agent, kid, data, rfl, hbody, hkid, hdata, hvalid⟩ := h
  obtain ⟨_, id, agent', sigMeta, he, hshape⟩ := acrV1_shape ((validateRecord_eq_ok P).mp hvalid).1
  cases he
  have hget {k : String} (hk : k ≠ "signature") :
      getStr k (completed privateKey kid data items) = getStr k items := getStr_setStr_ne hk _ items
  have hagent := hshape.agent_eq
  rw [hget (by decide), hbody.agent_eq, Option.some.injEq, PyValue.dict.injEq] at hagent
  subst hagent
  have hsm := hshape.sigMeta_eq
  rw [completed, getStr_setStr_self, Option.some.injEq, PyValue.dict.injEq] at hsm
  subst hsm
  refine ⟨_, id, agent, _, P.sign privateKey data, data, rfl, signed_wf hkid hbody.wf _,
    (hget (by decide)).trans hbody.sup_eq, hshape, hvalid, ?_, ?_, P.length_sign privateKey data,
    getStr_setStr_self _ _ _, bind_eq_ok.mpr ⟨_, payload_completed, hdata⟩, hsign data⟩
  · rw [getStr_setStr_ne (by decide), blankSignature, getStr_members]
    rfl
  · intro w hw
    rw [hbody.key_eq, Option.some.injEq] at hw
    exact hw.symm

/-- What a constructor returns verifies under its key. -/
theorem Returned.verify {sup : Option PyValue} {r : PyValue} (h : Returned privateKey sup r)
    (hsign : ∀ data, P.verify (P.publicKey privateKey) (P.sign privateKey data) data = true) :
    verify P r (some (P.publicKey privateKey)) = true := by
  obtain ⟨items, id, agent, sigMeta, sig, data, rfl, _, _, hver⟩ := h.verified hsign
  refine (verify_iff P).mpr ⟨items, id, agent, sigMeta, _, sig, data, rfl, hver, fun k hk => ?_⟩
  exact (Option.some.inj hk).symm

/-- A correction names the identifier and the digest of what it corrects. -/
theorem supersedes_of_field {p : PyValue} {q : PyObject} {sup : PyValue} {items pitems : Items}
    {id : PyStr} {agent sigMeta : Items} (hp : p = .dict pitems) (hwf : p.WF)
    (hshape : Shape pitems id agent sigMeta) (hs : PyValue.Same p q.val)
    (hc : canonicalJson q.val = canonicalJson p) (hsup : supersedesField P q.val = .ok sup)
    (hget : getStr "supersedes" items = some sup) :
    ∃ sup digest data, Supersedes items sup id digest ∧ canonicalJson p = .ok data ∧
      digest.pyEq (hashObject P data) = true := by
  subst hp
  obtain ⟨qitems, hq⟩ := PyValue.exists_dict_of_isDict (PyValue.isDict_of_same hs).symm
  have hqwf := q.wf
  rw [hq] at hs hqwf hsup hc
  obtain ⟨w, hw, hid⟩ := PyValue.exists_getStr_of_same hqwf hs hshape.id_eq
  cases hid
  obtain ⟨data, hdata, hsup⟩ := bind_eq_ok.mp hsup
  obtain ⟨correctionId, hcid, hsup⟩ := bind_eq_ok.mp hsup
  obtain ⟨_, he, hcid⟩ := PyValue.getMethod_eq_ok.mp hcid
  cases he
  rw [hw, Option.getD_some] at hcid
  subst hcid
  -- the identifier of a valid record is not empty, so it is the one that is taken
  have htruthy : truthy (.str id) = true := by
    rw [truthy, Bool.not_eq_true', List.isEmpty_eq_false_iff]
    exact hshape.id_ne_nil
  rw [orElse, htruthy, if_pos rfl] at hsup
  cases hsup
  refine ⟨_, hashObject P data, data, ⟨hget, ?_, ?_⟩, hc ▸ hdata, ?_⟩
  · rw [getStr_members]; rfl
  · rw [getStr_members]; rfl
  · rw [pyEq_hashObject_iff P (hashObject_wf P data)]
    exact PyValue.same_refl (hashObject_jsonAble P data)

/-! ## Chains of corrections -/

/-- A record made by `record` or `unknown`. -/
def IsRoot (privateKey : P.PrivateKey) (r : PyValue) : Prop :=
  (∃ env a, (record P privateKey env a).result = .ok r) ∨
    ∃ env a, (unknown P privateKey env a).result = .ok r

/-- A correction of a record, or of what is read back of it. -/
def Corrects (privateKey : P.PrivateKey) (p r : PyValue) : Prop :=
  ∃ env a, Reread p a.priorRecord ∧ (retract P privateKey env a).result = .ok r

theorem IsRoot.returned {r : PyValue} (h : IsRoot privateKey r) : Returned privateKey none r :=
  h.elim (fun ⟨_, _, h⟩ => record_returned h) fun ⟨_, _, h⟩ => unknown_returned h

/-- A correction of a returned record follows it. -/
theorem Corrects.linked {p r : PyValue} {sup : Option PyValue} (h : Corrects privateKey p r)
    (hp : Returned privateKey sup p)
    (hsign : ∀ data, P.verify (P.publicKey privateKey) (P.sign privateKey data) data = true) :
    linked P (some p) r = .ok true := by
  obtain ⟨env, a, hread, hr⟩ := h
  obtain ⟨s, hs, hr⟩ := retract_returned hr
  obtain ⟨pitems, id, _, _, _, _, rfl, hwf, _, hver⟩ := hp.verified hsign
  obtain ⟨items, _, _, _, _, _, rfl, _, hget, _⟩ := hr.verified hsign
  obtain ⟨b, hb⟩ := ((validateRecord_eq_ok P).mp hver.accepted).2
  obtain ⟨hsame, hcanon⟩ := reread_same hwf ((jsonAble_iff_canonicalJson hwf).mpr ⟨b, hb⟩) hread
  rw [linked_some P (recordId_eq hver.toShape).1]
  exact supersedes_of_field rfl hwf hver.toShape hsame hcanon hs hget

section

variable {records : List PyValue}
  (hsign : ∀ data, P.verify (P.publicKey privateKey) (P.sign privateKey data) data = true)
  (hroot : ∀ r ∈ records.head?, IsRoot privateKey r)
  (hnext : records.IsChain (Corrects privateKey))

include hroot hnext in
/-- Every record of the history was returned by a call. -/
theorem forall_returned : ∀ r ∈ records, ∃ sup, Returned privateKey sup r := by
  refine hnext.induction _ _ (fun p r hpr _ => ?_) fun hne => ?_
  · obtain ⟨_, a, _, h⟩ := hpr
    obtain ⟨s, _, hr⟩ := retract_returned h
    exact ⟨some s, hr⟩
  · exact ⟨none, (hroot _ (List.head?_eq_some_head hne)).returned⟩

include hsign hroot hnext in
/-- Corrections of corrections of a first record are a history. -/
theorem history_of_returned (hne : records ≠ [])
    (hids : records.Pairwise fun r r' =>
      r.getItem "correctionId" ≠ r'.getItem "correctionId") :
    History (rules P (some (P.publicKey privateKey))) records := by
  have hret := forall_returned hroot hnext
  have hok : ∀ r ∈ records, verify P r (some (P.publicKey privateKey)) = true := by
    intro r hr
    obtain ⟨sup, hr⟩ := hret r hr
    exact hr.verify hsign
  refine ⟨hne, hok, ?_, fun r hr => ?_, ?_⟩
  · rw [List.Nodup, List.pairwise_map]
    refine hids.imp_of_mem fun {r r'} hr hr' hid heq => hid ?_
    obtain ⟨_, _, _, _, _, _, _, rfl, hv, _⟩ := (verify_iff P).mp (hok r hr)
    obtain ⟨_, _, _, _, _, _, _, rfl, hv', _⟩ := (verify_iff P).mp (hok r' hr')
    obtain ⟨h1, h2⟩ := recordId_eq hv.toShape
    obtain ⟨h1', h2'⟩ := recordId_eq hv'.toShape
    rw [h1, h1', ← h2, ← h2']
    exact congrArg (fun id => Except.ok (PyValue.str id)) heq
  · obtain ⟨items, _, _, _, _, _, rfl, _, hget, _⟩ := (hroot r hr).returned.verified hsign
    exact (linked_none P).mpr hget
  · refine hnext.imp_of_mem_imp fun p r hp _ hpr => ?_
    obtain ⟨sup, hp⟩ := hret p hp
    exact hpr.linked hp hsign

include hsign hroot hnext in
/-- Everything the constructors build verifies: each record, also as read back,
the chain, and the chain with its checkpoint. -/
theorem lifecycle (hne : records ≠ [])
    (hids : records.Pairwise fun r r' =>
      r.getItem "correctionId" ≠ r'.getItem "correctionId") :
    (∀ r ∈ records, ∀ w, Reread r w →
      verifyTrusted P w.val (some (P.publicKey privateKey)) = true) ∧
    verifyChain P (.list records) (some (P.publicKey privateKey)) .none = true ∧
    ∃ checkpoint, chainCheckpoint P (.list records) = .ok checkpoint ∧
      verifyChain P (.list records) (some (P.publicKey privateKey)) checkpoint = true := by
  have hist := history_of_returned hsign hroot hnext hne hids
  refine ⟨fun r hr w hw => ?_, (verifyChain_iff P).mpr ⟨hist, rfl⟩, ?_⟩
  · obtain ⟨sup, hret⟩ := forall_returned hroot hnext r hr
    obtain ⟨_, _, _, _, _, _, rfl, hwf, _, hver⟩ := hret.verified hsign
    have hj := (jsonAble_iff_canonicalJson hwf).mpr ((validateRecord_eq_ok P).mp hver.accepted).2
    obtain ⟨hsame, _⟩ := reread_same hwf hj hw
    rw [verifyTrusted, Bool.and_eq_true]
    exact ⟨rfl, verify_of_same P hwf w.wf hsame (hret.verify hsign)⟩
  · obtain ⟨_, _, _, _, _, _, _, _, hdesc⟩ := describe_of_history P hist
    refine ⟨_, (chainCheckpoint_eq P hist).trans hdesc, (verifyChain_iff P).mpr ⟨hist, ?_⟩⟩
    exact (matchesCheckpoint_iff P hdesc).mpr ⟨rfl, rfl, rfl⟩

end

namespace Vector

/-- The platform of the vectors, on which what is signed verifies. -/
def signing : Platform :=
  { platform with
    verify := fun k sig data =>
      decide (k.val = raw 32 key ∧ sig = (Vector.sign data).getD (List.replicate 64 0)) }

/-- The platform accepts what it signs. -/
theorem signing_verify (data : Bytes) :
    signing.verify (signing.publicKey ()) (signing.sign () data) data = true :=
  decide_eq_true ⟨rfl, rfl⟩

/-- The record that the first call returns. -/
def first : PyValue := returned (record signing () env recordArgs)

/-- The first call returns. -/
theorem record_first : (record signing () env recordArgs).result = .ok first :=
  result_eq_returned (by decide +kernel)

theorem first_wf : first.WF := by
  obtain ⟨_, _, _, _, _, _, _, hwf, _⟩ := (record_returned record_first).verified signing_verify
  exact hwf

/-- The correction of it that the second call returns. -/
def second : PyValue := returned (retract signing () env (retractArgs ⟨first, first_wf⟩))

/-- The second call returns, with another identifier. -/
theorem retract_second :
    (retract signing () env (retractArgs ⟨first, first_wf⟩)).result = .ok second ∧
      recordId first ≠ recordId second := by
  -- one evaluation of both calls decides both
  have h : (retract signing () env (retractArgs ⟨first, first_wf⟩)).result.isOk = true ∧
      recordId first ≠ recordId second := by decide +kernel
  exact ⟨result_eq_returned h.1, h.2⟩

/-- An action and its retraction. -/
def IsPair (p : PyObject) (r : PyValue) : Prop :=
  (record signing () env recordArgs).result = .ok p.val ∧
    (retract signing () env (retractArgs p)).result = .ok r ∧ recordId p.val ≠ recordId r

/-- Two such calls, one made of the other's record. -/
theorem isPair_of {v r : PyValue} (hv : v.WF)
    (h : (record signing () env recordArgs).result = .ok v)
    (hr : (retract signing () env (retractArgs ⟨v, hv⟩)).result = .ok r)
    (hid : recordId v ≠ recordId r) : ∃ p r, IsPair p r := ⟨⟨v, hv⟩, r, h, hr, hid⟩

theorem exists_isPair : ∃ p r, IsPair p r :=
  isPair_of first_wf record_first retract_second.1 retract_second.2

end Vector

theorem lifecycle_vectors : ∃ p : PyObject, ∃ r,
    (record Vector.signing () Vector.env Vector.recordArgs).result = .ok p.val ∧
    (retract Vector.signing () Vector.env (Vector.retractArgs p)).result = .ok r ∧
    verifyChain Vector.signing (.list [p.val, r]) (some (Vector.signing.publicKey ())) .none =
      true := by
  obtain ⟨p, r, hp, hr, hid⟩ := Vector.exists_isPair
  have hroot : ∀ x ∈ [p.val, r].head?, IsRoot (P := Vector.signing) () x := by
    intro x hx
    rw [← Option.some.inj hx]
    exact Or.inl ⟨_, _, hp⟩
  have hnext : [p.val, r].IsChain (Corrects (P := Vector.signing) ()) :=
    .cons_cons ⟨_, _, Or.inl rfl, hr⟩ (.singleton _)
  have hids : [p.val, r].Pairwise fun r r' =>
      r.getItem "correctionId" ≠ r'.getItem "correctionId" := by
    refine List.pairwise_pair.mpr fun h => hid ?_
    rw [recordId, recordId, h]
  exact ⟨p, r, hp, hr,
    (lifecycle Vector.signing_verify hroot hnext (List.cons_ne_nil _ _) hids).2.1⟩

end Corrlog
