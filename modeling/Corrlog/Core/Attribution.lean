import Corrlog.Core.Constructors

/-!
# Attribution

With an ideal signature, what verifies under a key is what the key has signed.
The key signs before the record is validated, so that this alone says nothing of
what the constructors returned.  But whether a record is valid depends on its
payload only, not on which signature of 64 bytes it carries
(`completed_valid`): a body that was signed and then refused is refused under
any signature (`tamper_evident`).
-/

namespace Corrlog

open Python
open JsonSchema (valid valid_setStr valid_of_same valid_allOf inClass fullMatch)

variable {P : Platform} {privateKey : P.PrivateKey}

/-! ## The schema does not tell signatures apart -/

/-- The alphabet of the encoding is the class in the schema. -/
theorem sextetChar_inClass :
    ∀ n < 64, inClass base64urlRanges (.scalar (sextetChar n)) = true := by
  decide

/-- A signature of 64 bytes has the form the schema asks for. -/
theorem valid_base64url {isDateTime : PyStr → Bool} {data : Bytes} (h : data.length = 64) :
    valid isDateTime (base64urlSchema 86) (.str (ofChars (b64url data))) = true := by
  have hlen : (ofChars (b64url data)).length = 86 := by
    rw [length_ofChars, length_b64url, h]
  have hall : (ofChars (b64url data)).all (inClass base64urlRanges) = true := by
    rw [List.all_eq_true, b64url_eq, ofChars, List.map_map]
    intro c hc
    obtain ⟨n, hn, rfl⟩ := List.mem_map.mp hc
    exact sextetChar_inClass n (sextets_lt data n hn)
  have hmatch : fullMatch base64urlRanges 86 (ofChars (b64url data)) = true := by
    simp only [fullMatch, hlen, hall, decide_true, Bool.and_true, Bool.true_or]
  rw [base64urlSchema, valid_allOf, List.forall_mem_cons, List.forall_mem_singleton]
  exact ⟨rfl, hmatch⟩

theorem ofProperty_signature : acrV1.ofProperty "signature" = [signatureSchema] := rfl

theorem ofProperty_sig : signatureSchema.ofProperty "sig" = [base64urlSchema 86] := rfl

/-- A record stays valid with another signature of 64 bytes. -/
theorem valid_setSig {isDateTime : PyStr → Bool} {items sigMeta : Items} {sig sig' : Bytes}
    (hlen : sig.length = 64) (hlen' : sig'.length = 64) :
    valid isDateTime acrV1 (.dict (setStr "signature"
        (.dict (setStr "sig" (.str (ofChars (b64url sig))) sigMeta)) items)) =
      valid isDateTime acrV1 (.dict (setStr "signature"
        (.dict (setStr "sig" (.str (ofChars (b64url sig'))) sigMeta)) items)) := by
  rw [valid_setStr acrV1 (getStr_setStr_self "signature" _ items)
    (w := .dict (setStr "sig" (.str (ofChars (b64url sig'))) sigMeta)), setStr_setStr]
  rw [ofProperty_signature, List.forall_mem_singleton]
  rw [valid_setStr signatureSchema (getStr_setStr_self "sig" _ sigMeta)
    (w := .str (ofChars (b64url sig'))), setStr_setStr]
  rw [ofProperty_sig, List.forall_mem_singleton, valid_base64url hlen, valid_base64url hlen']

/-- A body with the payload of a verified record is valid. -/
theorem completed_valid {items items' agent agent' sigMeta : Items} {id : PyStr}
    {k : P.PublicKey} {sig data : Bytes} {kid : PyValue} {sup : Option PyValue}
    (hwf : (PyValue.dict items').WF) (hver : Verified P items' id agent' sigMeta k sig data)
    (hbody : Body privateKey sup items agent) (hkid : kid.WF)
    (hdata : canonicalJson (.dict (blanked privateKey kid items)) = .ok data) :
    validateRecord P (.dict (completed privateKey kid data items)) = .ok () := by
  have hblank : (PyValue.dict (blanked privateKey kid items)).WF :=
    PyValue.wf_setStr (blankSignature_wf hkid) hbody.wf
  have hsm := PyValue.wf_of_getKey hwf hver.sigMeta_eq
  have hsm0 : (PyValue.dict (setStr "sig" (.str []) sigMeta)).WF :=
    PyValue.wf_setStr (PyValue.wf_str []) hsm
  have hpay := payload_wf hwf hver.sigMeta_eq
  have hdata' := hver.data_eq
  rw [payload_eq hver.toShape] at hdata'
  have hsame := same_of_canonicalJson hpay hblank hdata' hdata
  -- the signatures without `sig` are the same, and so they are with that of the record
  obtain ⟨w, hw, hsig⟩ := PyValue.exists_getStr_of_same hblank hsame (getStr_setStr_self _ _ _)
  rw [blanked, getStr_setStr_self, Option.some.injEq] at hw
  subst hw
  have hsig' := PyValue.same_setStr hsm0 (blankSignature_wf hkid) (PyValue.wf_str _) hsig
    (PyValue.same_refl (noSurrogates_ofChars (b64url sig))) "sig"
  rw [setStr_setStr, setStr_of_getStr hver.sig_eq] at hsig'
  have hrec := PyValue.same_setStr hpay hblank hsm hsame hsig' "signature"
  rw [setStr_setStr, setStr_of_getStr hver.sigMeta_eq, blanked, setStr_setStr] at hrec
  have hwf' := @signed_wf P privateKey _ _ hkid hbody.wf (ofChars (b64url sig))
  have hvalid := ((validateRecord_eq_ok P).mp hver.accepted).1
  have hjson := (jsonAble_iff_canonicalJson hblank).mpr ⟨data, hdata⟩
  rw [validateRecord_eq_ok]
  constructor
  · rw [completed, valid_setSig (P.length_sign privateKey data) hver.length_sig,
      ← valid_of_same acrV1 hwf hwf' hrec, hvalid]
  · have hcwf : (PyValue.dict (completed privateKey kid data items)).WF :=
      signed_wf hkid hbody.wf _
    rw [← jsonAble_iff_canonicalJson hcwf]
    have hsigj := PyValue.jsonAble_of_getKey hjson (getStr_setStr_self "signature" _ items)
    have := PyValue.jsonAble_setStr (k := "signature") (PyValue.jsonAble_setStr (k := "sig")
      ((PyValue.jsonAble_str (ofChars (b64url (P.sign privateKey data)))).mpr
        (noSurrogates_ofChars _)) hsigj) hjson
    rwa [blanked, setStr_setStr] at this

/-! ## Runs -/

/-- With an ideal signature, a record that verifies under a key used by the
constructors only has the payload of a record that one of them returned, and
names that key.  A call that has signed its payload has returned. -/
theorem tamper_evident {calls : List Call}
    (hideal : ∀ sig data, P.verify (P.publicKey privateKey) sig data = true →
      ∃ c ∈ calls, (c.outcome privateKey).signed = some data)
    {r : PyObject} (h : verifyTrusted P r.val (some (P.publicKey privateKey)) = true) :
    ∃ data, (payload r.val >>= canonicalJson) = .ok data ∧
      (∃ c ∈ calls, ∃ r0, (c.outcome privateKey).result = .ok r0 ∧
        (payload r0 >>= canonicalJson) = .ok data) ∧
      (∃ sigMeta, r.val.getItem "signature" = .ok sigMeta ∧
        sigMeta.getItem "publicKey" = .ok (.str (keyText P privateKey))) ∧
      (∀ agent w, r.val.getItem "agent" = .ok agent → agent.getItem "publicKey" = .ok w →
        w = .str (keyText P privateKey)) ∧
      ∀ c ∈ calls, (c.outcome privateKey).signed = some data →
        ∃ r0, (c.outcome privateKey).result = .ok r0 := by
  obtain ⟨r, hwf⟩ := r
  rw [verifyTrusted, Bool.and_eq_true, verify_iff] at h
  obtain ⟨_, items, id, agent, sigMeta, k, sig, data, rfl, hver, hk⟩ := h
  cases hk _ rfl
  -- a call that has signed the payload has returned a record with this payload
  have hreturned : ∀ c : Call, (c.outcome privateKey).signed = some data →
      ∃ r0, (c.outcome privateKey).result = .ok r0 ∧ (payload r0 >>= canonicalJson) = .ok data := by
    intro c hc
    obtain ⟨sup, bitems, bagent, kid, hbody, hkid, hdata, hresult⟩ := Call.signed hc
    refine ⟨.dict (completed privateKey kid data bitems), ?_,
      bind_eq_ok.mpr ⟨_, payload_completed, hdata⟩⟩
    rw [hresult, completed_valid hwf hver hbody hkid hdata]
    rfl
  obtain ⟨c, hc, hsigned⟩ := hideal sig data hver.signed
  obtain ⟨r0, hr0, hpay⟩ := hreturned c hsigned
  refine ⟨data, hver.data_eq, ⟨c, hc, r0, hr0, hpay⟩, ?_, ?_, ?_⟩
  · exact ⟨_, PyValue.getItem_eq_ok.mpr ⟨_, rfl, hver.sigMeta_eq⟩,
      PyValue.getItem_eq_ok.mpr ⟨_, rfl, hver.key_eq⟩⟩
  · intro ag w hag hw
    obtain ⟨_, he, hag⟩ := PyValue.getItem_eq_ok.mp hag
    cases he
    rw [hver.agent_eq, Option.some.injEq] at hag
    subst hag
    obtain ⟨_, he, hw⟩ := PyValue.getItem_eq_ok.mp hw
    cases he
    exact hver.agentKey_eq w hw
  · intro c _ hc
    obtain ⟨r0, hr0, _⟩ := hreturned c hc
    exact ⟨r0, hr0⟩

/-- The first vector is what one of the calls of the vectors returned. -/
theorem tamper_evident_vectors :
    ∃ data, (payload Vector.action >>= canonicalJson) = .ok data ∧
      ∃ c ∈ Vector.calls, ∃ r0, (c.outcome (P := Vector.platform) ()).result = .ok r0 ∧
        (payload r0 >>= canonicalJson) = .ok data := by
  have hideal : ∀ sig data, Vector.platform.verify Vector.publicKey sig data = true →
      ∃ c ∈ Vector.calls, (c.outcome (P := Vector.platform) ()).signed = some data := by
    intro sig data h
    have hsig := (of_decide_eq_true h).2
    have hmem : some data ∈ Vector.calls.map
        fun c => (c.outcome (P := Vector.platform) ()).signed := by
      rw [Vector.calls_signed]
      rw [Vector.sign] at hsig
      split at hsig
      next heq => exact heq ▸ List.mem_cons_self
      next =>
        split at hsig
        next heq => exact heq ▸ List.mem_cons_of_mem _ List.mem_cons_self
        next => cases hsig
    obtain ⟨c, hc, hs⟩ := List.mem_map.mp hmem
    exact ⟨c, hc, hs⟩
  obtain ⟨data, hdata, hcall, _⟩ := @tamper_evident Vector.platform () Vector.calls
    hideal (r := ⟨Vector.action, Vector.action_wf⟩) (by decide +kernel)
  exact ⟨data, hdata, hcall⟩

end Corrlog
