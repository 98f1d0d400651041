import Corrlog.Core.Verify

/-!
# Constructors

`record`, `retract` and `unknown` build a body, sign it (`_sign`) and validate
it.  Since signing comes first, a constructor may raise after the key has signed:
an `Outcome` keeps what was signed beside the result.

The fields of a body come from the arguments, but for three that the code sets
itself: the key of the agent, the signature and what the body supersedes
(`Body`).
-/

namespace Corrlog

open Python
open JsonSchema (valid)

variable (P : Platform)

/-! ## Helpers -/

/-- `bool(v)`. -/
def truthy : PyValue → Bool
  | .none => false
  | .bool b => b
  | .int n => decide (n ≠ 0)
  | .float (.finite _ m) => decide (m.val ≠ 0)
  | .float _ => true
  | .str s => !s.isEmpty
  | .list xs => !xs.isEmpty
  | .tuple xs => !xs.isEmpty
  | .dict items => !items.isEmpty
  | .other o => o.truthy

/-- `v or w`, where `w` is evaluated if `v` is not true. -/
def orElse (v : PyValue) (w : Except PyErr PyValue) : Except PyErr PyValue :=
  if truthy v then .ok v else w

/-- `v is None`. -/
def isNone : PyValue → Bool
  | .none => true
  | _ => false

/-- `v if v is not None else d`. -/
def orDefault (v d : PyValue) : PyValue :=
  match v with
  | .none => d
  | _ => v

/-- `body[k1][k2] = v`. -/
def setIn (body : PyValue) (k1 k2 : String) (v : PyValue) : Except PyErr PyValue := do
  let inner ← body.getItem k1
  let inner' ← inner.setItem k2 v
  body.setItem k1 inner'

/-- `if cond: body[k1][k2] = v`. -/
def setInIf (cond : Bool) (body : PyValue) (k1 k2 : String) (v : PyValue) : Except PyErr PyValue :=
  if cond then setIn body k1 k2 v else .ok body

/-- `str(v)`. -/
def pyStr : PyValue → Option PyStr
  | .str s => some s
  | .other o => o.str
  | v => P.repr v

/-- `canonical_json(v) if isinstance(v, dict) else str(v).encode()`. -/
def contentBytes (v : PyValue) : Except PyErr Bytes :=
  if v.isDict then canonicalJson v
  else
    match (pyStr P v).map encodeUtf8 with
    | some (some data) => .ok data
    | some none => builtinError .UnicodeError
    | none => builtinError .TypeError

/-- `if isinstance(v, dict): _check_application_numbers(v)`. -/
def checkDict (v : PyValue) : Except PyErr Unit :=
  if v.isDict then checkApplicationNumbers v else .ok ()

/-- `if v is not None: body[k1][k2] = _hash_object(...)`. -/
def setHash (body : PyValue) (k1 k2 : String) (v : PyValue) : Except PyErr PyValue :=
  match v with
  | .none => .ok body
  | _ => do
      let data ← contentBytes P v
      setIn body k1 k2 (hashObject P data)

/-- `raise ValueError(f"{text}{v!r}")`. -/
def raiseGot {α : Type} (text : String) (v : PyValue) : Except PyErr α :=
  match P.repr v with
  | some r => .error ⟨.ValueError, lit text ++ r⟩
  | none => builtinError .TypeError

/-- `v in texts`. -/
def oneOf (texts : List String) (v : PyValue) : Bool := texts.any fun s => v.pyEq (.str (lit s))

/-- `VALID_TRIGGERS`. -/
def validTriggers : List String := ["supersede", "check_failed", "human_flagged", "self_correction"]

/-- `VALID_FIX_TYPES`. -/
def validFixTypes : List String := ["replace", "delete", "rollback", "noop", "other"]

/-- `VALID_SOURCE_TYPES`. -/
def validSourceTypes : List String := ["schema", "document", "database", "api", "human", "other"]

/-! ## Signing -/

/-- What a constructor had signed and what it returned or raised. -/
structure Outcome where
  signed : Option Bytes
  result : Except PyErr PyValue

/-- `public_key_b64url(private_key.public_key())`. -/
def keyText (privateKey : P.PrivateKey) : PyStr :=
  ofChars (publicKeyB64url P (P.publicKey privateKey))

/-- `body["signature"]` before signing. -/
def blankSignature (privateKey : P.PrivateKey) (kid : PyValue) : Items :=
  members [("alg", .str (lit "Ed25519")), ("kid", kid), ("publicKey", .str (keyText P privateKey)),
    ("canonicalization", .str (lit "RFC8785")), ("sig", .str [])]

/-- `_sign`: the signed bytes and the signed body. -/
def sign (body : PyValue) (privateKey : P.PrivateKey) (kid : PyValue) :
    Except PyErr (Bytes × PyValue) := do
  checkApplicationNumbers body
  let body ← body.setItem "signature" (.dict (blankSignature P privateKey kid))
  let data ← canonicalJson body
  let body ← setIn body "signature" "sig" (.str (ofChars (b64url (P.sign privateKey data))))
  return (data, body)

/-- The end of every constructor: `_sign`, `validate_record`, `return body`. -/
def finish (body : Except PyErr PyValue) (privateKey : P.PrivateKey) (kid : PyValue) : Outcome :=
  match body >>= fun body =>
      sign P body privateKey (orDefault kid (.str (keyText P privateKey))) with
  | .error e => ⟨none, .error e⟩
  | .ok (data, body) => ⟨some data, (validateRecord P body).map fun _ => body⟩

/-! ## The constructors -/

/-- What a constructor takes from its surroundings: `str(uuid.uuid4())` and
`datetime.now(timezone.utc).isoformat()`. -/
structure Env where
  uuid : PyStr
  now : PyStr

/-- The arguments that all constructors take, beside the key. -/
structure Common where
  agentId : PyObject
  principalId : PyObject := .str "unknown"
  principalType : PyObject := .str "organization"
  kid : PyObject := .none
  metadata : PyObject := .none
  correctionId : PyObject := .none
  timestamp : PyObject := .none

/-- The arguments of `record`. -/
structure RecordArgs extends Common where
  agentName : PyObject := .none
  actionType : PyObject
  actionTarget : PyObject := .none
  actionArgs : PyObject := .none
  actionResult : PyObject := .none

/-- The arguments of `retract`. -/
structure RetractArgs extends Common where
  priorRecord : PyObject
  reason : PyObject
  trigger : PyObject
  fixType : PyObject := .str "replace"
  fixNote : PyObject := .none
  correctedContent : PyObject := .none
  sourceType : PyObject := .none
  sourceReference : PyObject := .none

/-- The arguments of `unknown`. -/
structure UnknownArgs extends Common where
  agentName : PyObject := .none
  subject : PyObject
  note : PyObject := .none

namespace Common

variable (privateKey : P.PrivateKey) (env : Env) (a : Common)

/-- `body["correctionId"]`. -/
def idField : PyValue := orDefault a.correctionId.val (.str env.uuid)

/-- `body["agent"]`. -/
def agentField : PyValue :=
  dictOf [("id", a.agentId.val), ("publicKey", .str (keyText P privateKey))]

/-- `body["principal"]`. -/
def principalField : PyValue :=
  dictOf [("id", a.principalId.val), ("type", a.principalType.val)]

/-- `body["timestamp"]`. -/
def timestampField : PyValue := orDefault a.timestamp.val (.str env.now)

/-- `body["metadata"]`. -/
def metadataField : PyValue := orDefault a.metadata.val (dictOf [])

end Common

/-- The body of `record`. -/
def recordBody (privateKey : P.PrivateKey) (env : Env) (a : RecordArgs) : Except PyErr PyValue := do
  let body := dictOf [("correctionId", a.idField env), ("agent", a.agentField P privateKey),
    ("principal", a.principalField), ("action", dictOf [("type", a.actionType.val)]),
    ("reason", .str []), ("trigger", .str (lit "supersede")),
    ("fix", dictOf [("type", .str (lit "noop"))]), ("timestamp", a.timestampField env),
    ("metadata", a.metadataField)]
  let body ← setInIf (truthy a.agentName.val) body "agent" "name" a.agentName.val
  let body ← setInIf (truthy a.actionTarget.val) body "action" "target" a.actionTarget.val
  checkDict a.actionArgs.val
  checkDict a.actionResult.val
  let body ← setHash P body "metadata" "inputHash" a.actionArgs.val
  setHash P body "metadata" "outputHash" a.actionResult.val

/-- `record`. -/
def record (privateKey : P.PrivateKey) (env : Env) (a : RecordArgs) : Outcome :=
  finish P (recordBody P privateKey env a) privateKey a.kid.val

/-- The argument checks of `retract`. -/
def checkRetract (a : RetractArgs) : Except PyErr Unit :=
  if !oneOf validTriggers a.trigger.val then
    raiseGot P ("trigger must be one of ('supersede', 'check_failed', 'human_flagged', " ++
      "'self_correction'), got ") a.trigger.val
  else if !oneOf validFixTypes a.fixType.val then
    raiseGot P "fix.type must be one of ('replace', 'delete', 'rollback', 'noop', 'other'), got "
      a.fixType.val
  else if !isNone a.sourceType.val && !oneOf validSourceTypes a.sourceType.val then
    raiseGot P ("source.type must be one of ('schema', 'document', 'database', 'api', 'human', " ++
      "'other'), got ") a.sourceType.val
  else if isNone a.sourceType.val != isNone a.sourceReference.val then
    raise .ValueError "source_type and source_reference must be provided together"
  else .ok ()

/-- `body["supersedes"]`: the identifier and the digest of the prior record. -/
def supersedesField (prior : PyValue) : Except PyErr PyValue := do
  let data ← canonicalJson prior
  let correctionId ← prior.getMethod "correctionId" .none
  let receiptId ← orElse correctionId (prior.getMethod "receiptId" .none)
  return dictOf [("receiptId", receiptId), ("digest", hashObject P data)]

/-- The body of `retract`. -/
def retractBody (privateKey : P.PrivateKey) (env : Env) (a : RetractArgs) :
    Except PyErr PyValue := do
  checkRetract P a
  let supersedes ← supersedesField P a.priorRecord.val
  let action ← a.priorRecord.val.getMethod "action" (dictOf [])
  let actionType ← action.getMethod "type" (.str (lit "unknown"))
  let body := dictOf [("correctionId", a.idField env), ("agent", a.agentField P privateKey),
    ("principal", a.principalField), ("supersedes", supersedes),
    ("action", dictOf [("type", actionType)]), ("reason", a.reason.val),
    ("trigger", a.trigger.val), ("fix", dictOf [("type", a.fixType.val)]),
    ("timestamp", a.timestampField env), ("metadata", a.metadataField)]
  let body ← setInIf (truthy a.fixNote.val) body "fix" "note" a.fixNote.val
  checkDict a.correctedContent.val
  let body ← setHash P body "fix" "contentHash" a.correctedContent.val
  setInIf (!isNone a.sourceType.val) body "fix" "source"
    (dictOf [("type", a.sourceType.val), ("reference", a.sourceReference.val)])

/-- `retract`. -/
def retract (privateKey : P.PrivateKey) (env : Env) (a : RetractArgs) : Outcome :=
  finish P (retractBody P privateKey env a) privateKey a.kid.val

/-- The body of `unknown`. -/
def unknownBody (privateKey : P.PrivateKey) (env : Env) (a : UnknownArgs) : Except PyErr PyValue :=
  let body := dictOf [("correctionId", a.idField env), ("agent", a.agentField P privateKey),
    ("principal", a.principalField), ("kind", .str (lit "unknown")), ("subject", a.subject.val),
    ("note", if truthy a.note.val then a.note.val else .str []),
    ("timestamp", a.timestampField env), ("metadata", a.metadataField)]
  setInIf (truthy a.agentName.val) body "agent" "name" a.agentName.val

/-- `unknown`. -/
def unknown (privateKey : P.PrivateKey) (env : Env) (a : UnknownArgs) : Outcome :=
  finish P (unknownBody P privateKey env a) privateKey a.kid.val

/-! ## What a body holds -/

/-- `body[k1][k2] = v` needs a dict in a dict. -/
theorem setIn_eq_ok {body body' v : PyValue} {k1 k2 : String} :
    setIn body k1 k2 v = .ok body' ↔ ∃ items inner, body = .dict items ∧
      getStr k1 items = some (.dict inner) ∧
        body' = .dict (setStr k1 (.dict (setStr k2 v inner)) items) := by
  constructor
  · intro h
    obtain ⟨inner, hinner, h⟩ := bind_eq_ok.mp h
    obtain ⟨items, rfl, hget⟩ := PyValue.getItem_eq_ok.mp hinner
    obtain ⟨inner', hset, h⟩ := bind_eq_ok.mp h
    obtain ⟨inner, rfl, rfl⟩ := PyValue.setItem_eq_ok.mp hset
    exact ⟨items, inner, rfl, hget, (Except.ok.inj h).symm⟩
  · rintro ⟨items, inner, rfl, hget, rfl⟩
    exact bind_eq_ok.mpr ⟨_, PyValue.getItem_eq_ok.mpr ⟨_, rfl, hget⟩, rfl⟩

variable {P} {privateKey : P.PrivateKey} {sup : Option PyValue}

/-- The fields of a body that the code sets itself. -/
structure Body (privateKey : P.PrivateKey) (sup : Option PyValue) (items agent : Items) : Prop where
  wf : (PyValue.dict items).WF
  agent_eq : getStr "agent" items = some (.dict agent)
  key_eq : getStr "publicKey" agent = some (.str (keyText P privateKey))
  sup_eq : getStr "supersedes" items = sup

/-- A value that is a body. -/
def IsBody (privateKey : P.PrivateKey) (sup : Option PyValue) (body : PyValue) : Prop :=
  ∃ items agent, body = .dict items ∧ Body privateKey sup items agent

/-- Setting any other field keeps those. -/
theorem IsBody.setIn {body body' v : PyValue} {k1 k2 : String} (h : IsBody privateKey sup body)
    (hset : setIn body k1 k2 v = .ok body') (hv : v.WF) (hsup : k1 ≠ "supersedes")
    (hkey : k2 ≠ "publicKey") : IsBody privateKey sup body' := by
  obtain ⟨items, agent, rfl, hb⟩ := h
  obtain ⟨_, inner, he, hget, rfl⟩ := setIn_eq_ok.mp hset
  cases he
  have hwf := PyValue.wf_setStr (k := k1)
    (PyValue.wf_setStr (k := k2) hv (PyValue.wf_of_getKey hb.wf hget)) hb.wf
  have hsup' := (getStr_setStr_ne (Ne.symm hsup) (.dict (setStr k2 v inner)) items).trans hb.sup_eq
  by_cases hk : k1 = "agent"
  · subst hk
    rw [hb.agent_eq, Option.some.injEq, PyValue.dict.injEq] at hget
    subst hget
    exact ⟨_, setStr k2 v agent, rfl, hwf, getStr_setStr_self _ _ _,
      (getStr_setStr_ne (Ne.symm hkey) v agent).trans hb.key_eq, hsup'⟩
  · exact ⟨_, agent, rfl, hwf, (getStr_setStr_ne (Ne.symm hk) _ _).trans hb.agent_eq, hb.key_eq,
      hsup'⟩

theorem IsBody.setInIf {cond : Bool} {body body' v : PyValue} {k1 k2 : String}
    (h : IsBody privateKey sup body) (hset : setInIf cond body k1 k2 v = .ok body') (hv : v.WF)
    (hsup : k1 ≠ "supersedes") (hkey : k2 ≠ "publicKey") : IsBody privateKey sup body' := by
  cases cond with
  | true => exact h.setIn hset hv hsup hkey
  | false => cases hset; exact h

/-- A hash is put neither over the link nor over the key. -/
theorem IsBody.setHash {body body' v : PyValue} {k1 k2 : String} (h : IsBody privateKey sup body)
    (hset : setHash P body k1 k2 v = .ok body') (hsup : k1 ≠ "supersedes")
    (hkey : k2 ≠ "publicKey") : IsBody privateKey sup body' := by
  rw [Corrlog.setHash.eq_def] at hset
  split at hset
  next => cases hset; exact h
  next =>
    obtain ⟨data, _, hset⟩ := bind_eq_ok.mp hset
    exact h.setIn hset (hashObject_wf P data) hsup hkey

theorem orDefault_wf {v d : PyValue} (hv : v.WF) (hd : d.WF) : (orDefault v d).WF := by
  cases v <;> first | exact hd | exact hv

/-- The body a constructor starts with. -/
theorem isBody_dictOf {a : Common} {kvs : List (String × PyValue)} (hnd : (kvs.map Prod.fst).Nodup)
    (hwf : ∀ kv ∈ kvs, kv.2.WF) (hagent : kvs.lookup "agent" = some (a.agentField P privateKey))
    (hsup : kvs.lookup "supersedes" = sup) : IsBody privateKey sup (dictOf kvs) := by
  refine ⟨_, _, rfl, PyValue.wf_members.mpr ⟨hnd, hwf⟩, (getStr_members _ _).trans hagent, ?_,
    (getStr_members _ _).trans hsup⟩
  rw [getStr_members]
  rfl

theorem dictOf_wf {kvs : List (String × PyValue)} (hnd : (kvs.map Prod.fst).Nodup)
    (hwf : ∀ kv ∈ kvs, kv.2.WF) : (dictOf kvs).WF := PyValue.wf_members.mpr ⟨hnd, hwf⟩

theorem Common.idField_wf (env : Env) (a : Common) : (a.idField env).WF :=
  orDefault_wf a.correctionId.wf rfl

theorem Common.agentField_wf (privateKey : P.PrivateKey) (a : Common) :
    (a.agentField P privateKey).WF := by
  refine dictOf_wf (by simp) ?_
  simp [a.agentId.wf]

theorem Common.principalField_wf (a : Common) : a.principalField.WF := by
  refine dictOf_wf (by simp) ?_
  simp [a.principalId.wf, a.principalType.wf]

theorem Common.timestampField_wf (env : Env) (a : Common) : (a.timestampField env).WF :=
  orDefault_wf a.timestamp.wf rfl

theorem Common.metadataField_wf (a : Common) : a.metadataField.WF :=
  orDefault_wf a.metadata.wf rfl

theorem single_wf {k : String} {v : PyValue} (hv : v.WF) : (dictOf [(k, v)]).WF :=
  dictOf_wf (by simp) (by simpa using hv)

/-- What `record` signs names its key and follows nothing. -/
theorem recordBody_isBody {env : Env} {a : RecordArgs} {body : PyValue}
    (h : recordBody P privateKey env a = .ok body) : IsBody privateKey none body := by
  obtain ⟨b1, h1, h⟩ := bind_eq_ok.mp h
  obtain ⟨b2, h2, h⟩ := bind_eq_ok.mp h
  obtain ⟨_, _, h⟩ := bind_eq_ok.mp h
  obtain ⟨_, _, h⟩ := bind_eq_ok.mp h
  obtain ⟨b3, h3, h4⟩ := bind_eq_ok.mp h
  have hb1 : IsBody privateKey none b1 := by
    refine IsBody.setInIf ?_ h1 a.agentName.wf (by decide) (by decide)
    refine isBody_dictOf (by simp) ?_ rfl rfl
    simp [a.idField_wf, a.agentField_wf, a.principalField_wf, a.timestampField_wf,
      a.metadataField_wf, single_wf a.actionType.wf, single_wf (PyValue.wf_str _)]
  have hb2 := hb1.setInIf h2 a.actionTarget.wf (by decide) (by decide)
  exact (hb2.setHash h3 (by decide) (by decide)).setHash h4 (by decide) (by decide)

/-- What `unknown` signs names its key and follows nothing. -/
theorem unknownBody_isBody {env : Env} {a : UnknownArgs} {body : PyValue}
    (h : unknownBody P privateKey env a = .ok body) : IsBody privateKey none body := by
  have hnote : (if truthy a.note.val then a.note.val else .str []).WF := by
    split
    · exact a.note.wf
    · rfl
  refine IsBody.setInIf ?_ h a.agentName.wf (by decide) (by decide)
  refine isBody_dictOf (by simp) ?_ rfl rfl
  simp [a.idField_wf, a.agentField_wf, a.principalField_wf, a.timestampField_wf,
    a.metadataField_wf, a.subject.wf, hnote]

theorem getMethod_wf {v d w : PyValue} {k : String} (hv : v.WF) (hd : d.WF)
    (h : v.getMethod k d = .ok w) : w.WF := by
  obtain ⟨items, rfl, rfl⟩ := PyValue.getMethod_eq_ok.mp h
  cases hg : getStr k items with
  | none => exact hd
  | some w => exact PyValue.wf_of_getKey hv hg

theorem supersedesField_wf {prior sup : PyValue} (hp : prior.WF)
    (h : supersedesField P prior = .ok sup) : sup.WF := by
  obtain ⟨data, _, h⟩ := bind_eq_ok.mp h
  obtain ⟨correctionId, hc, h⟩ := bind_eq_ok.mp h
  obtain ⟨receiptId, hr, h⟩ := bind_eq_ok.mp h
  cases h
  have hwf : receiptId.WF := by
    rw [orElse] at hr
    split at hr
    · cases hr; exact getMethod_wf hp PyValue.wf_none hc
    · exact getMethod_wf hp PyValue.wf_none hr
  refine dictOf_wf (by simp) ?_
  simp [hwf, hashObject_wf]

/-- What `retract` signs names its key and the prior record. -/
theorem retractBody_isBody {env : Env} {a : RetractArgs} {body : PyValue}
    (h : retractBody P privateKey env a = .ok body) :
    ∃ sup, supersedesField P a.priorRecord.val = .ok sup ∧ IsBody privateKey (some sup) body := by
  obtain ⟨_, _, h⟩ := bind_eq_ok.mp h
  obtain ⟨sup, hsup, h⟩ := bind_eq_ok.mp h
  obtain ⟨action, haction, h⟩ := bind_eq_ok.mp h
  obtain ⟨actionType, htype, h⟩ := bind_eq_ok.mp h
  obtain ⟨b1, h1, h⟩ := bind_eq_ok.mp h
  obtain ⟨_, _, h⟩ := bind_eq_ok.mp h
  obtain ⟨b2, h2, h3⟩ := bind_eq_ok.mp h
  have hactionType : actionType.WF :=
    getMethod_wf (getMethod_wf a.priorRecord.wf (PyValue.wf_members.mpr (by simp)) haction)
      (PyValue.wf_str _) htype
  have hsource :
      (dictOf [("type", a.sourceType.val), ("reference", a.sourceReference.val)]).WF := by
    refine dictOf_wf (by simp) ?_
    simp [a.sourceType.wf, a.sourceReference.wf]
  have hb1 : IsBody privateKey (some sup) b1 := by
    refine IsBody.setInIf ?_ h1 a.fixNote.wf (by decide) (by decide)
    refine isBody_dictOf (by simp) ?_ rfl rfl
    simp [a.idField_wf, a.agentField_wf, a.principalField_wf, a.timestampField_wf,
      a.metadataField_wf, supersedesField_wf a.priorRecord.wf hsup, single_wf hactionType,
      single_wf a.fixType.wf, a.reason.wf, a.trigger.wf]
  have hb2 := hb1.setHash h2 (by decide) (by decide)
  exact ⟨sup, hsup, hb2.setInIf h3 hsource (by decide) (by decide)⟩

/-! ## What is signed and returned -/

/-- The body that `_sign` signs. -/
def blanked (privateKey : P.PrivateKey) (kid : PyValue) (items : Items) : Items :=
  setStr "signature" (.dict (blankSignature P privateKey kid)) items

/-- The body that it leaves. -/
def completed (privateKey : P.PrivateKey) (kid : PyValue) (data : Bytes) (items : Items) : Items :=
  setStr "signature" (.dict (setStr "sig" (.str (ofChars (b64url (P.sign privateKey data))))
    (blankSignature P privateKey kid))) items

/-- `_sign` returns the bytes of the blanked record, and the record with the signature. -/
theorem sign_eq_ok {items : Items} {kid body : PyValue} {data : Bytes}
    (h : sign P (.dict items) privateKey kid = .ok (data, body)) :
    canonicalJson (.dict (blanked privateKey kid items)) = .ok data ∧
      body = .dict (completed privateKey kid data items) := by
  obtain ⟨_, _, h⟩ := bind_eq_ok.mp h
  obtain ⟨body1, h1, h⟩ := bind_eq_ok.mp h
  cases h1
  obtain ⟨data', hdata, h⟩ := bind_eq_ok.mp h
  obtain ⟨body2, h2, h⟩ := bind_eq_ok.mp h
  cases h
  refine ⟨hdata, ?_⟩
  obtain ⟨_, inner, he, hget, rfl⟩ := setIn_eq_ok.mp h2
  cases he
  rw [getStr_setStr_self, Option.some.injEq, PyValue.dict.injEq] at hget
  rw [completed, ← hget, setStr_setStr]

theorem blankSignature_wf {kid : PyValue} (hk : kid.WF) :
    (PyValue.dict (blankSignature P privateKey kid)).WF := by
  refine PyValue.wf_members.mpr ⟨by simp, ?_⟩
  simp [hk]

/-- A text in the place of the signature. -/
theorem signed_wf {kid : PyValue} {items : Items} (hk : kid.WF) (hi : (PyValue.dict items).WF)
    (s : PyStr) : (PyValue.dict (setStr "signature"
      (.dict (setStr "sig" (.str s) (blankSignature P privateKey kid))) items)).WF :=
  PyValue.wf_setStr (PyValue.wf_setStr (PyValue.wf_str s) (blankSignature_wf hk)) hi

theorem sig_blankSignature {kid : PyValue} :
    setStr "sig" (.str []) (blankSignature P privateKey kid) = blankSignature P privateKey kid :=
  setStr_of_getStr ((getStr_members _ _).trans rfl)

/-- The payload of the body that `_sign` leaves is the body it has signed. -/
theorem payload_completed {kid : PyValue} {data : Bytes} {items : Items} :
    payload (.dict (completed privateKey kid data items)) =
      .ok (.dict (blanked privateKey kid items)) := by
  have hget : (PyValue.dict (completed privateKey kid data items)).getItem "signature" = .ok _ :=
    PyValue.getItem_eq_ok.mpr ⟨_, rfl, getStr_setStr_self _ _ _⟩
  rw [payload, hget]
  refine bind_eq_ok.mpr ⟨_, rfl, bind_eq_ok.mpr ⟨_, rfl, ?_⟩⟩
  rw [setStr_setStr, sig_blankSignature, PyValue.setItem, completed, setStr_setStr, blanked]

/-- What a constructor has signed is its body, which it returns if it is valid. -/
theorem finish_of_sign {b kid r : PyValue} {data : Bytes}
    (h : sign P b privateKey (orDefault kid (.str (keyText P privateKey))) = .ok (data, r)) :
    finish P (.ok b) privateKey kid = ⟨some data, (validateRecord P r).map fun _ => r⟩ := by
  have hbind : ((.ok b : Except PyErr PyValue) >>= fun body =>
      sign P body privateKey (orDefault kid (.str (keyText P privateKey)))) = .ok (data, r) := h
  rw [finish, hbind]

/-- Bytes are signed only if the body could be made. -/
theorem finish_signed {body : Except PyErr PyValue} {kid : PyValue} {data : Bytes}
    (h : (finish P body privateKey kid).signed = some data) :
    ∃ b r, body = .ok b ∧
      sign P b privateKey (orDefault kid (.str (keyText P privateKey))) = .ok (data, r) ∧
      (finish P body privateKey kid).result = (validateRecord P r).map fun _ => r := by
  rw [finish] at h ⊢
  split at h
  next => cases h
  next data' r hsign =>
    cases h
    obtain ⟨b, hb, hsign⟩ := bind_eq_ok.mp hsign
    exact ⟨b, r, hb, hsign, rfl⟩

/-- What it returns it has signed, and it is valid. -/
theorem finish_returned {body : Except PyErr PyValue} {kid r : PyValue}
    (h : (finish P body privateKey kid).result = .ok r) :
    ∃ b data, body = .ok b ∧ (finish P body privateKey kid).signed = some data ∧
      sign P b privateKey (orDefault kid (.str (keyText P privateKey))) = .ok (data, r) ∧
      validateRecord P r = .ok () := by
  obtain ⟨data, hdata⟩ : ∃ data, (finish P body privateKey kid).signed = some data := by
    rw [finish] at h ⊢
    split at h
    next => cases h
    next data b hsign => exact ⟨data, rfl⟩
  obtain ⟨b, r', hb, hsign, hresult⟩ := finish_signed hdata
  rw [hresult] at h
  obtain ⟨_, hvalid, rfl⟩ := map_eq_ok.mp h
  exact ⟨b, data, hb, hdata, hsign, hvalid⟩

/-- A call of a constructor. -/
inductive Call where
  | record (env : Env) (a : RecordArgs)
  | retract (env : Env) (a : RetractArgs)
  | unknown (env : Env) (a : UnknownArgs)

/-- What the call does with a key. -/
def Call.outcome (privateKey : P.PrivateKey) : Call → Outcome
  | .record env a => Corrlog.record P privateKey env a
  | .retract env a => Corrlog.retract P privateKey env a
  | .unknown env a => Corrlog.unknown P privateKey env a

/-- The body that the call signs. -/
def Call.body (privateKey : P.PrivateKey) : Call → Except PyErr PyValue
  | .record env a => recordBody P privateKey env a
  | .retract env a => retractBody P privateKey env a
  | .unknown env a => unknownBody P privateKey env a

/-- The `kid` of the call. -/
def Call.kid : Call → PyObject
  | .record _ a => a.kid
  | .retract _ a => a.kid
  | .unknown _ a => a.kid

/-- The three constructors end alike. -/
theorem Call.outcome_eq (c : Call) :
    c.outcome privateKey = finish P (c.body privateKey) privateKey c.kid.val := by
  cases c <;> rfl

theorem Call.isBody {c : Call} {b : PyValue} (h : c.body privateKey = .ok b) :
    ∃ sup, IsBody privateKey sup b := by
  cases c with
  | record env a => exact ⟨none, recordBody_isBody h⟩
  | unknown env a => exact ⟨none, unknownBody_isBody h⟩
  | retract env a =>
      obtain ⟨sup, _, hb⟩ := retractBody_isBody h
      exact ⟨some sup, hb⟩

/-- Whatever a call has signed is a body, which it returns if it is valid. -/
theorem Call.signed {privateKey : P.PrivateKey} {c : Call} {data : Bytes}
    (h : (c.outcome privateKey).signed = some data) :
    ∃ sup items agent kid, Body privateKey sup items agent ∧ kid.WF ∧
      canonicalJson (.dict (blanked privateKey kid items)) = .ok data ∧
      (c.outcome privateKey).result =
        (validateRecord P (.dict (completed privateKey kid data items))).map
          fun _ => .dict (completed privateKey kid data items) := by
  rw [c.outcome_eq] at h ⊢
  obtain ⟨b, r, hb, hsign, hresult⟩ := finish_signed h
  obtain ⟨sup, items, agent, rfl, hbody⟩ := c.isBody hb
  obtain ⟨hdata, rfl⟩ := sign_eq_ok hsign
  exact ⟨sup, items, agent, _, hbody, orDefault_wf c.kid.wf (PyValue.wf_str _), hdata, hresult⟩

/-! ## The calls that made the vectors -/

namespace Vector

/-- No surroundings: the identifier and the time of the vectors are given. -/
def env : Env := ⟨[], []⟩

/-- The call that made the first vector. -/
def recordArgs : RecordArgs where
  agentId := .str "vector-agent"
  agentName := .str "Vector Test Agent"
  principalId := .str "acme-corp"
  actionType := .str "memory.write"
  actionArgs := ⟨dictOf [("project", text "zespri"), ("topic", text "yield")], by decide +kernel⟩
  actionResult := ⟨dictOf [("yield_forecast", text "1420")], by decide +kernel⟩
  correctionId := .str "00000000-0000-4000-8000-000000000001"
  timestamp := .str "2026-08-25T00:00:00+00:00"

/-- The arguments of the correction, given the record it corrects. -/
def retractArgs (prior : PyObject) : RetractArgs where
  priorRecord := prior
  reason := .str "yield figure used wrong unit (kg vs tonne)"
  trigger := .str "check_failed"
  agentId := .str "vector-agent"
  fixType := .str "replace"
  correctedContent := ⟨dictOf [("yield_forecast", text "1.42")], by decide +kernel⟩
  fixNote := .str "converted kg to tonnes"
  correctionId := .str "00000000-0000-4000-8000-000000000002"
  timestamp := .str "2026-08-25T00:01:00+00:00"

/-- The two calls. -/
def calls : List Call :=
  [.record env recordArgs, .retract env (retractArgs ⟨action, action_wf⟩)]

theorem calls_signed : calls.map (fun c => (c.outcome (P := platform) ()).signed) =
    [some (bytes (actionWith "")), some (bytes (correctionWith ""))] := by decide +kernel

/-- What a call returns. -/
def returned (o : Outcome) : PyValue :=
  match o.result with
  | .ok r => r
  | .error _ => .none

theorem result_eq_returned {o : Outcome} (h : o.result.isOk = true) :
    o.result = .ok (returned o) := by
  rw [returned]
  cases hr : o.result with
  | ok r => rfl
  | error e => rw [hr] at h; cases h

end Vector

end Corrlog
