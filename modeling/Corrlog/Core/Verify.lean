import Corrlog.Core.Keys
import Corrlog.Core.Wire

/-!
# Verifying a record

`validate_record`, `verify` and `verify_trusted`.  The signed text of a record is
the canonical form of its `payload`, the record with an empty `signature.sig`.

What `verify` finds in a record it accepts is `Verified`, and `verify_iff` says
that it accepts nothing else.  Acceptance is about the JSON value of the record
(`verify_of_same`).
-/

namespace Corrlog

open Python
open JsonSchema (valid valid_of_same)

variable (P : Platform)

/-! ## The code -/

/-- `validate_record`. -/
def validateRecord (record : PyValue) : Except PyErr Unit :=
  if valid P.isDateTime acrV1 record then
    match canonicalJson record with
    | .ok _ => .ok ()
    | .error _ => raise .ValueError "invalid ACR record"
  else raise .ValueError "invalid ACR record"

/-- `{**record, "signature": {**sig_meta, "sig": ""}}` with
`sig_meta = record["signature"]`. -/
def payload (record : PyValue) : Except PyErr PyValue := do
  let sigMeta ← record.getItem "signature"
  let blank ← sigMeta.setItem "sig" (.str [])
  record.setItem "signature" blank

/-- The body of the `try` in `verify`. -/
def verifyBody (record : PyValue) (publicKey : Option P.PublicKey) : Except PyErr Bool := do
  validateRecord P record
  let sigMeta ← record.getItem "signature"
  let encoded ← sigMeta.getItem "publicKey"
  let embedded ← loadPublicKey P encoded
  let agent ← record.getItem "agent"
  let agentKey ← agent.getMethod "publicKey" encoded
  if !agentKey.pyEq encoded then return false
  else if publicKey.any fun k => publicKeyB64url P k ≠ publicKeyB64url P embedded then
    return false
  else
    let sig ← sigMeta.getItem "sig"
    let sigBytes ← decodeExact sig 64
    let data ← payload record >>= canonicalJson
    if P.verify (publicKey.getD embedded) sigBytes data then return true
    else builtinError .InvalidSignature

/-- `verify`. -/
def verify (record : PyValue) (publicKey : Option P.PublicKey) : Bool :=
  record.isDict &&
    match verifyBody P record publicKey with
    | .ok b => b
    | .error _ => false

/-- `verify_trusted`.  The key is absent if it is not an Ed25519 public key. -/
def verifyTrusted (record : PyValue) (publicKey : Option P.PublicKey) : Bool :=
  publicKey.isSome && verify P record publicKey

/-! ## What is accepted -/

/-- `validate_record` returns for what the schema accepts and has canonical bytes. -/
theorem validateRecord_eq_ok {record : PyValue} :
    validateRecord P record = .ok () ↔
      valid P.isDateTime acrV1 record = true ∧ ∃ b, canonicalJson record = .ok b := by
  rw [validateRecord]
  split
  next hv =>
    cases canonicalJson record with
    | ok b => simp [hv]
    | error e => simp [raise]
  next hv => simp [hv, raise]

/-- What `verify` finds in a record it accepts: the signature `sig` of `data`,
its payload, under the key `k` it names. -/
structure Verified (items : Items) (id : PyStr) (agent sigMeta : Items) (k : P.PublicKey)
    (sig data : Bytes) : Prop extends Shape items id agent sigMeta where
  accepted : validateRecord P (.dict items) = .ok ()
  key_eq : getStr "publicKey" sigMeta = some (.str (ofChars (publicKeyB64url P k)))
  agentKey_eq : ∀ w, getStr "publicKey" agent = some w → w = .str (ofChars (publicKeyB64url P k))
  length_sig : sig.length = 64
  sig_eq : getStr "sig" sigMeta = some (.str (ofChars (b64url sig)))
  data_eq : (payload (.dict items) >>= canonicalJson) = .ok data
  signed : P.verify k sig data = true

/-- What has been checked when `verify` returns true. -/
theorem verifyBody_eq_true {items : Items} {publicKey : Option P.PublicKey}
    (h : verifyBody P (.dict items) publicKey = .ok true) :
    ∃ id agent sigMeta k sig data, Verified P items id agent sigMeta k sig data ∧
      ∀ k' ∈ publicKey, k' = k := by
  obtain ⟨_, hvalid, h⟩ := bind_eq_ok.mp h
  obtain ⟨_, id, agent, sigMeta, he, hshape⟩ := acrV1_shape ((validateRecord_eq_ok P).mp hvalid).1
  cases he
  obtain ⟨sm, hsm, h⟩ := bind_eq_ok.mp h
  rw [PyValue.getItem, hshape.sigMeta_eq] at hsm
  cases hsm
  obtain ⟨encoded, henc, h⟩ := bind_eq_ok.mp h
  obtain ⟨_, he, henc⟩ := PyValue.getItem_eq_ok.mp henc
  cases he
  obtain ⟨k, hk, h⟩ := bind_eq_ok.mp h
  rw [loadPublicKey_eq_ok] at hk
  subst hk
  obtain ⟨ag, hag, h⟩ := bind_eq_ok.mp h
  rw [PyValue.getItem, hshape.agent_eq] at hag
  cases hag
  obtain ⟨agentKey, hagk, h⟩ := bind_eq_ok.mp h
  cases hagk
  split at h
  next => cases h
  next hagent =>
    split at h
    next => cases h
    next hkey =>
      obtain ⟨sigText, hsig, h⟩ := bind_eq_ok.mp h
      obtain ⟨_, he, hsig⟩ := PyValue.getItem_eq_ok.mp hsig
      cases he
      obtain ⟨sig, hdec, h⟩ := bind_eq_ok.mp h
      obtain ⟨hlen, htext⟩ := decodeExact_eq_ok.mp hdec
      rw [htext] at hsig
      obtain ⟨data, hdata, h⟩ := bind_eq_ok.mp h
      have hkey' : ∀ k' ∈ publicKey, k' = k := by
        intro k' hk'
        rw [Option.mem_def.mp hk'] at hkey
        simp only [Option.any_some, decide_eq_true_eq, not_not] at hkey
        exact P.publicBytes_injective (b64url_injective hkey)
      have hgetD : publicKey.getD k = k := by
        cases publicKey with
        | none => rfl
        | some k' => exact hkey' k' rfl
      split at h
      next hver =>
        refine ⟨id, agent, sigMeta, k, sig, data, ⟨hshape, hvalid, henc, fun w hw => ?_, hlen, hsig,
          hdata, hgetD ▸ hver⟩, hkey'⟩
        rw [hw, Option.getD_some, Bool.not_eq_true', Bool.not_eq_false] at hagent
        exact PyValue.pyEq_str_iff.mp hagent
      next => cases h

/-- Whatever passes these checks verifies. -/
theorem verifyBody_of_verified {items : Items} {id : PyStr} {agent sigMeta : Items}
    {k : P.PublicKey} {sig data : Bytes} (h : Verified P items id agent sigMeta k sig data)
    {publicKey : Option P.PublicKey} (hkey : ∀ k' ∈ publicKey, k' = k) :
    verifyBody P (.dict items) publicKey = .ok true := by
  have hsm : (PyValue.dict items).getItem "signature" = .ok (.dict sigMeta) :=
    PyValue.getItem_eq_ok.mpr ⟨_, rfl, h.sigMeta_eq⟩
  have henc : (PyValue.dict sigMeta).getItem "publicKey" = .ok _ :=
    PyValue.getItem_eq_ok.mpr ⟨_, rfl, h.key_eq⟩
  have hag : (PyValue.dict items).getItem "agent" = .ok (.dict agent) :=
    PyValue.getItem_eq_ok.mpr ⟨_, rfl, h.agent_eq⟩
  have hsig : (PyValue.dict sigMeta).getItem "sig" = .ok _ :=
    PyValue.getItem_eq_ok.mpr ⟨_, rfl, h.sig_eq⟩
  have hmethod (d : PyValue) : (PyValue.dict agent).getMethod "publicKey" d =
      .ok ((getStr "publicKey" agent).getD d) := rfl
  have hagent : (((getStr "publicKey" agent).getD (.str (ofChars (publicKeyB64url P k)))).pyEq
      (.str (ofChars (publicKeyB64url P k)))) = true := by
    rw [PyValue.pyEq_str_iff]
    cases hw : getStr "publicKey" agent with
    | none => rfl
    | some w => exact h.agentKey_eq w hw
  have hany : (publicKey.any fun k' => publicKeyB64url P k' ≠ publicKeyB64url P k) = false := by
    cases publicKey with
    | none => rfl
    | some k' => simp [hkey k' rfl]
  have hgetD : publicKey.getD k = k := by
    cases publicKey with
    | none => rfl
    | some k' => exact hkey k' rfl
  rw [verifyBody]
  refine bind_eq_ok.mpr ⟨(), h.accepted, bind_eq_ok.mpr ⟨_, hsm, bind_eq_ok.mpr ⟨_, henc,
    bind_eq_ok.mpr ⟨k, (loadPublicKey_eq_ok P).mpr rfl, bind_eq_ok.mpr ⟨_, hag,
    bind_eq_ok.mpr ⟨_, hmethod _, ?_⟩⟩⟩⟩⟩⟩
  rw [hagent, hany, if_neg (by decide), if_neg (by decide)]
  refine bind_eq_ok.mpr ⟨_, hsig, bind_eq_ok.mpr ⟨sig, decodeExact_eq_ok.mpr ⟨h.length_sig, rfl⟩,
    bind_eq_ok.mpr ⟨data, h.data_eq, ?_⟩⟩⟩
  rw [hgetD, h.signed]
  rfl

/-- `verify` accepts the records whose signature it finds, and no others. -/
theorem verify_iff {record : PyValue} {publicKey : Option P.PublicKey} :
    verify P record publicKey = true ↔
      ∃ items id agent sigMeta k sig data, record = .dict items ∧
        Verified P items id agent sigMeta k sig data ∧ ∀ k' ∈ publicKey, k' = k := by
  rw [verify, Bool.and_eq_true]
  constructor
  · rintro ⟨hd, h⟩
    obtain ⟨items, rfl⟩ := PyValue.exists_dict_of_isDict hd
    cases hb : verifyBody P (.dict items) publicKey with
    | error e => rw [hb] at h; cases h
    | ok b =>
        rw [hb] at h
        dsimp only at h
        subst h
        obtain ⟨id, agent, sigMeta, k, sig, data, hv, hk⟩ := verifyBody_eq_true P hb
        exact ⟨items, id, agent, sigMeta, k, sig, data, rfl, hv, hk⟩
  · rintro ⟨items, id, agent, sigMeta, k, sig, data, rfl, hv, hk⟩
    exact ⟨rfl, by rw [verifyBody_of_verified P hv hk]⟩

/-! ## Acceptance is about the JSON value -/

/-- What is signed is the record with an empty signature. -/
theorem payload_eq {items : Items} {id : PyStr} {agent sigMeta : Items}
    (h : Shape items id agent sigMeta) :
    payload (.dict items) =
      .ok (.dict (setStr "signature" (.dict (setStr "sig" (.str []) sigMeta)) items)) := by
  rw [payload, PyValue.getItem, h.sigMeta_eq]
  rfl

/-- The payload of a well-formed record. -/
theorem payload_wf {items sigMeta : Items} (hwf : (PyValue.dict items).WF)
    (hsm : getStr "signature" items = some (.dict sigMeta)) :
    (PyValue.dict (setStr "signature" (.dict (setStr "sig" (.str []) sigMeta)) items)).WF :=
  PyValue.wf_setStr (PyValue.wf_setStr (PyValue.wf_str []) (PyValue.wf_of_getKey hwf hsm)) hwf

/-- The same JSON value passes the same check. -/
theorem validateRecord_of_same {v w : PyValue} (hv : v.WF) (hw : w.WF) (h : PyValue.Same v w)
    (hval : validateRecord P v = .ok ()) : validateRecord P w = .ok () := by
  rw [validateRecord_eq_ok, ← jsonAble_iff_canonicalJson hv] at hval
  rw [validateRecord_eq_ok, ← jsonAble_iff_canonicalJson hw, ← valid_of_same acrV1 hv hw h]
  exact ⟨hval.1, PyValue.jsonAble_of_same hval.2 hw h⟩

/-- The parts the code looks up are the same in records that are the same. -/
theorem shape_of_same {items items' : Items} (hw : (PyValue.dict items').WF)
    (h : PyValue.Same (.dict items) (.dict items')) {id : PyStr} {agent sigMeta : Items}
    (hs : Shape items id agent sigMeta) :
    ∃ agent' sigMeta', Shape items' id agent' sigMeta' ∧
      PyValue.Same (.dict agent) (.dict agent') ∧
        PyValue.Same (.dict sigMeta) (.dict sigMeta') := by
  obtain ⟨id', hid', he⟩ := PyValue.exists_getStr_of_same hw h hs.id_eq
  cases he
  obtain ⟨ag, hag', hag⟩ := PyValue.exists_getStr_of_same hw h hs.agent_eq
  obtain ⟨agent', rfl⟩ := PyValue.exists_dict_of_isDict (PyValue.isDict_of_same hag).symm
  obtain ⟨sm, hsm', hsm⟩ := PyValue.exists_getStr_of_same hw h hs.sigMeta_eq
  obtain ⟨sigMeta', rfl⟩ := PyValue.exists_dict_of_isDict (PyValue.isDict_of_same hsm).symm
  exact ⟨agent', sigMeta', ⟨hid', hs.id_ne_nil, hag', hsm'⟩, hag, hsm⟩

/-- What is found in a record is found in every record that is the same. -/
theorem verified_of_same {items items' : Items} (hv : (PyValue.dict items).WF)
    (hw : (PyValue.dict items').WF) (h : PyValue.Same (.dict items) (.dict items')) {id : PyStr}
    {agent sigMeta : Items} {k : P.PublicKey} {sig data : Bytes}
    (hver : Verified P items id agent sigMeta k sig data) :
    ∃ agent' sigMeta', Verified P items' id agent' sigMeta' k sig data := by
  obtain ⟨agent', sigMeta', hs, hag, hsm⟩ := shape_of_same hw h hver.toShape
  have hag' := PyValue.wf_of_getKey hw hs.agent_eq
  have hsm' := PyValue.wf_of_getKey hw hs.sigMeta_eq
  have hsmv := PyValue.wf_of_getKey hv hver.sigMeta_eq
  have hstr {k : String} {s : PyStr} (he : getStr k sigMeta = some (.str s)) :
      getStr k sigMeta' = some (.str s) := by
    obtain ⟨w, hw', he⟩ := PyValue.exists_getStr_of_same hsm' hsm he
    cases he
    exact hw'
  refine ⟨agent', sigMeta', hs, validateRecord_of_same P hv hw h hver.accepted, hstr hver.key_eq,
    fun w hw' => ?_, hver.length_sig, hstr hver.sig_eq, ?_, hver.signed⟩
  · obtain ⟨u, hu, hsame⟩ := PyValue.exists_getStr_of_same
      (PyValue.wf_of_getKey hv hver.agent_eq) (PyValue.same_symm hag' hag) hw'
    rw [hver.agentKey_eq u hu] at hsame
    exact PyValue.eq_of_same_str hsame
  · have hdata := hver.data_eq
    rw [payload_eq hver.toShape] at hdata
    rw [payload_eq hs]
    have hblank := PyValue.same_setStr hsmv hsm' (PyValue.wf_str []) hsm
      (PyValue.same_refl rfl) "sig"
    have hsame := PyValue.same_setStr hv hw (PyValue.wf_setStr (PyValue.wf_str []) hsmv) h
      hblank "signature"
    have hwfv := payload_wf hv hver.sigMeta_eq
    exact (canonicalJson_of_same hwfv ((jsonAble_iff_canonicalJson hwfv).mpr ⟨data, hdata⟩)
      (payload_wf hw hs.sigMeta_eq) hsame).trans hdata

/-- The same JSON value verifies with the same key. -/
theorem verify_of_same {v w : PyValue} (hv : v.WF) (hw : w.WF) (h : PyValue.Same v w)
    {publicKey : Option P.PublicKey} (hver : verify P v publicKey = true) :
    verify P w publicKey = true := by
  obtain ⟨items, id, agent, sigMeta, k, sig, data, rfl, hver, hk⟩ := (verify_iff P).mp hver
  obtain ⟨items', rfl⟩ := PyValue.exists_dict_of_isDict (PyValue.isDict_of_same h).symm
  obtain ⟨agent', sigMeta', hver'⟩ := verified_of_same P hv hw h hver
  exact (verify_iff P).mpr ⟨items', id, agent', sigMeta', k, sig, data, rfl, hver', hk⟩

/-! ## The frozen vectors

The records of `verifier/vectors`, with the functions of the platform as they are
on them. -/

namespace Vector

/-- A string literal as a value. -/
def text (s : String) : PyValue := .str (lit s)

/-- The bytes of a base64url text. -/
def raw (size : ℕ) (s : String) : Bytes :=
  match decodeExact (text s) size with
  | .ok data => data
  | .error _ => []

/-- The canonical bytes of a record. -/
def bytes (v : PyValue) : Bytes :=
  match canonicalJson v with
  | .ok data => data
  | .error _ => []

/-- The public key of the frozen vectors. -/
def key : String := "OtF6YA1cqeED8GAFXfsYsHlYppW4eD4wmjpeFli9oy8"

/-- A digest in a record. -/
def digest (d : String) : PyValue := dictOf [("alg", text "sha256"), ("digest", text d)]

/-- The signature of a record. -/
def signature (sig : String) : PyValue :=
  dictOf [("alg", text "Ed25519"), ("kid", text key), ("publicKey", text key),
    ("canonicalization", text "RFC8785"), ("sig", text sig)]

/-- `action.json`, with a signature to fill in. -/
def actionWith (sig : String) : PyValue :=
  dictOf [("correctionId", text "00000000-0000-4000-8000-000000000001"),
    ("agent", dictOf [("id", text "vector-agent"), ("publicKey", text key),
      ("name", text "Vector Test Agent")]),
    ("principal", dictOf [("id", text "acme-corp"), ("type", text "organization")]),
    ("action", dictOf [("type", text "memory.write")]), ("reason", text ""),
    ("trigger", text "supersede"), ("fix", dictOf [("type", text "noop")]),
    ("timestamp", text "2026-08-25T00:00:00+00:00"),
    ("metadata", dictOf [("inputHash", digest "EdglPoHhwuecbP4uH8sKXwc_OhYHUPBbGbTU9r5Bhr0"),
      ("outputHash", digest "GJf_QQROrGnHJAKFId0aox8Dmoia_agUISJAflFYDbk")]),
    ("signature", signature sig)]

/-- `correction.json`, with a signature to fill in. -/
def correctionWith (sig : String) : PyValue :=
  dictOf [("correctionId", text "00000000-0000-4000-8000-000000000002"),
    ("agent", dictOf [("id", text "vector-agent"), ("publicKey", text key)]),
    ("principal", dictOf [("id", text "unknown"), ("type", text "organization")]),
    ("supersedes", dictOf [("receiptId", text "00000000-0000-4000-8000-000000000001"),
      ("digest", digest "Qx8Ju9WvQzppqgKmNztNoJzV1N3RlUtjhZgLR7iRYVE")]),
    ("action", dictOf [("type", text "memory.write")]),
    ("reason", text "yield figure used wrong unit (kg vs tonne)"),
    ("trigger", text "check_failed"),
    ("fix", dictOf [("type", text "replace"), ("note", text "converted kg to tonnes"),
      ("contentHash", digest "t1gDJq0w6c2DspbNTiNBfbbAQf_qyz22D6bfc39MbVE")]),
    ("timestamp", text "2026-08-25T00:01:00+00:00"), ("metadata", dictOf []),
    ("signature", signature sig)]

/-- The signature of the first vector. -/
def actionSig : String :=
  "QrEMUdDNA_4OSI0bNXtQ02gageNXqP-xijU4PbLIr3t7yQQpMm_ZLq0Q1D6Mp4auLIGQURK--ehPxKRDf-H_Aw"

/-- The signature of the second one. -/
def correctionSig : String :=
  "ZiCypN3_vVjHG2Qw3BBlJ7_F_4K4WbOv4Jh_IS4q8oheCCCO0YXQIY55qDRx1S9uQVrv4MU1XiHSbNEzpDoyAA"

/-- The first vector. -/
def action : PyValue := actionWith actionSig

/-- The second vector, a correction of the first. -/
def correction : PyValue := correctionWith correctionSig

/-- The signatures of the two records, and no other ones. -/
def sign (data : Bytes) : Option Bytes :=
  if data = bytes (actionWith "") then some (raw 64 actionSig)
  else if data = bytes (correctionWith "") then some (raw 64 correctionSig)
  else none

/-- The digests that occur in the two records. -/
def sha256 (data : Bytes) : Bytes :=
  if data = bytes action then raw 32 "Qx8Ju9WvQzppqgKmNztNoJzV1N3RlUtjhZgLR7iRYVE"
  else if data = bytes correction then raw 32 "nJJSgYzZqAfMMSrN6WP_S52MIwxRZdLIo9fXHFjrVlw"
  else if data = utf8 "\x7b\"project\":\"zespri\",\"topic\":\"yield\"\x7d".toList then
    raw 32 "EdglPoHhwuecbP4uH8sKXwc_OhYHUPBbGbTU9r5Bhr0"
  else if data = utf8 "\x7b\"yield_forecast\":\"1420\"\x7d".toList then
    raw 32 "GJf_QQROrGnHJAKFId0aox8Dmoia_agUISJAflFYDbk"
  else if data = utf8 "\x7b\"yield_forecast\":\"1.42\"\x7d".toList then
    raw 32 "t1gDJq0w6c2DspbNTiNBfbbAQf_qyz22D6bfc39MbVE"
  else []

/-- The platform on the vectors. -/
def platform : Platform where
  PrivateKey := Unit
  PublicKey := {data : Bytes // data.length = 32}
  publicKey _ := ⟨raw 32 key, by decide +kernel⟩
  publicBytes k := k.val
  fromPublicBytes data := if h : data.length = 32 then some ⟨data, h⟩ else none
  sign _ data := (sign data).getD (List.replicate 64 0)
  verify k sig data := decide (k.val = raw 32 key ∧ sign data = some sig)
  sha256 := sha256
  isDateTime s :=
    decide (s = lit "2026-08-25T00:00:00+00:00" ∨ s = lit "2026-08-25T00:01:00+00:00")
  repr _ := none
  length_publicBytes k := k.2
  length_sign _ data := by
    have h1 : (raw 64 actionSig).length = 64 := by decide +kernel
    have h2 : (raw 64 correctionSig).length = 64 := by decide +kernel
    rw [sign]
    split
    · rw [Option.getD_some, h1]
    · split
      · rw [Option.getD_some, h2]
      · rw [Option.getD_none, List.length_replicate]
  fromPublicBytes_iff data k := by
    constructor
    · intro h
      split at h
      · cases h; rfl
      · cases h
    · rintro rfl
      exact dif_pos k.2

/-- The trusted key of the vectors. -/
def publicKey : platform.PublicKey := platform.publicKey ()

theorem action_wf : action.WF := by decide +kernel

theorem correction_wf : correction.WF := by decide +kernel

/-- The first vector verifies. -/
theorem verify_action : verify platform action (some publicKey) = true := by decide +kernel

/-- The second vector verifies. -/
theorem verify_correction : verify platform correction (some publicKey) = true := by
  decide +kernel

end Vector

end Corrlog
