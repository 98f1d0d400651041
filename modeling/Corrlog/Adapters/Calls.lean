import Corrlog.Core.Accepts

/-!
# Adapters

The adapters of agent frameworks make the same calls of the constructors: an
action for a tool call (`action`) and, if the tool has failed, a correction of it
(`correction`).  `action_ok_iff` and `correction_ok_iff` say when these return.
-/

namespace Corrlog.Adapters

open Python

/-! ## Calls -/

/-- What an adapter is made with, beside its sink. -/
structure Adapter (P : Platform) where
  privateKey : P.PrivateKey
  agentId : PyStr
  principalId : PyStr := lit "organization"

variable {P : Platform} (a : Adapter P)

/-- `args if isinstance(args, dict) else {k: args}`. -/
def asDict (k : String) (args : PyObject) : PyObject :=
  if args.val.isDict then args else oneItem k args

/-- The record of a tool call. -/
def action (env : Env) (actionType : PyStr) (args metadata : PyObject) : Call :=
  .record env (toolRecord a.agentId a.principalId actionType args metadata)

/-- The correction of a tool call. -/
def correction (env : Env) (prior : PyObject) (reason note : PyStr) : Call :=
  .retract env (toolRetract a.agentId a.principalId prior reason note)

/-- A value as an argument.  The interpreter has no others than these. -/
def asObject (v : PyValue) : Except PyErr PyObject :=
  if h : v.WF then .ok ⟨v, h⟩ else builtinError .TypeError

/-- The `fix_note` of a correction. -/
def fixNote (before : String) (toolName : PyStr) (after : String) : PyStr :=
  lit before ++ toolName ++ lit after

/-- `result["error"]` if `isinstance(result, dict) and result.get("error")`. -/
def resultError (result : PyValue) : Option PyValue :=
  match result with
  | .dict items => (getStr "error" items).filter truthy
  | _ => none

/-- A well-formed value passes as an object. -/
theorem asObject_eq_ok {v : PyValue} (h : v.WF) : asObject v = .ok ⟨v, h⟩ := by
  rw [asObject, dif_pos h]

theorem asObject_val {v : PyValue} {o : PyObject} (h : asObject v = .ok o) : o.val = v := by
  by_cases hwf : v.WF
  · rw [asObject_eq_ok hwf] at h
    cases h
    rfl
  · rw [asObject, dif_neg hwf] at h
    cases h

/-! ## When they return -/

/-- A joined text has no surrogates exactly if its pieces have none. -/
theorem noSurrogates_intercalate {s : PyStr} (hs : noSurrogates s = true) {ts : List PyStr} :
    noSurrogates (s.intercalate ts) = true ↔ ∀ t ∈ ts, noSurrogates t = true := by
  induction ts with
  | nil => simp
  | cons t ts ih =>
      rcases eq_or_ne ts [] with rfl | hne
      · simp
      · rw [List.intercalate_cons_of_ne_nil hne]
        simp [hs, ih]

/-- With a prefix in front, any text without surrogates is a name. -/
theorem isName_append {p : String} (hp : lit p ≠ []) {s : PyStr} :
    IsName (lit p ++ s) ↔ noSurrogates s = true := by
  simp [IsName, hp]

/-- Putting a value in a dict of its own does not change whether it can be signed. -/
theorem signable_asDict {k : String} {args : PyObject} :
    Signable (asDict k args).val ↔ Signable args.val := by
  rw [asDict]
  split
  · exact Iff.rfl
  · rw [oneItem, signable_dictOf (single_wf args.wf), List.forall_mem_singleton]

theorem isDict_asDict (k : String) (args : PyObject) : (asDict k args).val.isDict = true := by
  rw [asDict]
  split
  next h => exact h
  next => rfl

/-- The record of the call can be signed: the names, the arguments and the
identifier of the call, if there is one. -/
structure Recordable (toolName : PyStr) (args callId : PyObject) : Prop where
  agentId : IsName a.agentId
  principalId : IsName a.principalId
  toolName : noSurrogates toolName = true
  args : Signable args.val
  callId : truthy callId.val = true → Signable callId.val

section

variable {a} {env : Env}

/-- A tool call can be recorded exactly if its names, its arguments and its identifier can be
signed. -/
theorem action_ok_iff {p k k' : String} {toolName : PyStr} {args callId : PyObject}
    (henv : env.Proper P) (hp : lit p ≠ []) (hk : k' ≠ "inputHash") :
    (∃ o, (action a env (lit p ++ toolName) (asDict k args) (callMetadata k' callId)).object
        a.privateKey = .ok o) ↔
      Recordable a toolName args callId := by
  obtain ⟨m, hm, hnone, hsign⟩ : ∃ m, orDefault (callMetadata k' callId).val (dictOf []) = .dict m ∧
      getStr "inputHash" m = none ∧
        (Signable (.dict m) ↔ (truthy callId.val = true → Signable callId.val)) := by
    rw [callMetadata]
    split
    next h =>
      refine ⟨_, rfl, ?_, ?_⟩
      · rw [getStr_members, List.lookup_cons, beq_eq_false_iff_ne.mpr hk.symm]
        rfl
      · exact (signable_dictOf (single_wf callId.wf)).trans (by simp [h])
    next h =>
      refine ⟨_, rfl, rfl, ?_⟩
      have hempty : (dictOf []).WF := rfl
      exact (signable_dictOf hempty).trans (by simp [h])
  refine Call.exists_object.trans
    ((toolRecord_ok_iff henv (isDict_asDict k args) hm hnone).trans ?_)
  rw [signable_asDict, hsign, isName_append hp]
  constructor
  · rintro ⟨hargs, hid, hagent, hprincipal, hname⟩
    exact ⟨hagent, hprincipal, hname, hargs, hid⟩
  · intro h
    exact ⟨h.args, h.callId, h.agentId, h.principalId, h.toolName⟩

/-- The record of a call is one that a correction can refer to. -/
theorem prior_of_action {actionType : PyStr} {args metadata prior : PyObject}
    (h : (action a env actionType args metadata).object a.privateKey = .ok prior) :
    ∃ id type data, Prior P prior.val id type data :=
  (prior_of_record (Call.object_eq_ok.mp h)).2

/-- A recorded call can be corrected exactly if the note has no surrogates and the reason is a
name. -/
theorem correction_ok_iff {toolName id type reason note : PyStr} {data : Bytes}
    {args callId prior : PyObject} (henv : env.Proper P)
    (hsha : ∀ data, (P.sha256 data).length = 32) (h : Recordable a toolName args callId)
    (hprior : Prior P prior.val id type data) (hnote : note ≠ []) :
    (∃ o, (correction a env prior reason note).object a.privateKey = .ok o) ↔
      noSurrogates note = true ∧ IsName reason := by
  refine Call.exists_object.trans ((toolRetract_ok_iff henv hsha hprior hnote).trans ?_)
  simp [h.agentId, h.principalId]

end

/-! ## A tool call of two adapters

Made with the key of the frozen vectors, corrected after the tool has timed out. -/

namespace Sample

open Corrlog.Vector

/-- What the tool is called with. -/
def arguments : PyObject := ⟨dictOf [("query", text "yield")], by decide +kernel⟩

theorem signable_arguments : Signable arguments.val := by
  refine (signable_dictOf arguments.wf).mpr ?_
  simp [text, signable_str]

/-- A record of the call, with a signature to fill in. -/
def actionAt (id timestamp type sig : String) : PyValue :=
  dictOf [("correctionId", text id),
    ("agent", dictOf [("id", text "vector-agent"), ("publicKey", text key)]),
    ("principal", dictOf [("id", text "organization"), ("type", text "organization")]),
    ("action", dictOf [("type", text type)]), ("reason", text ""), ("trigger", text "supersede"),
    ("fix", dictOf [("type", text "noop")]), ("timestamp", text timestamp),
    ("metadata",
      dictOf [("inputHash", digest "ymkQjnTNYHUVDt0tyhfCLjScuwyczppCZ0E6THpOCHg")]),
    ("signature", signature sig)]

/-- The record of the first call. -/
def actionWith : String → String → PyValue :=
  actionAt "00000000-0000-4000-8000-000000000001" "2026-08-25T00:00:00+00:00"

/-- Its correction, with a signature to fill in. -/
def correctionWith (type prior reason note sig : String) : PyValue :=
  dictOf [("correctionId", text "00000000-0000-4000-8000-000000000002"),
    ("agent", dictOf [("id", text "vector-agent"), ("publicKey", text key)]),
    ("principal", dictOf [("id", text "organization"), ("type", text "organization")]),
    ("supersedes", dictOf [("receiptId", text "00000000-0000-4000-8000-000000000001"),
      ("digest", digest prior)]),
    ("action", dictOf [("type", text type)]), ("reason", text reason),
    ("trigger", text "check_failed"),
    ("fix", dictOf [("type", text "replace"), ("note", text note)]),
    ("timestamp", text "2026-08-25T00:01:00+00:00"), ("metadata", dictOf []),
    ("signature", signature sig)]

/-- One of the adapters: its texts, and the signatures and the digest of its records. -/
structure Made where
  type : String
  reason : String
  note : String
  actionSig : String
  digest : String
  correctionSig : String

/-- The call as the AutoGen adapter records it. -/
def autogen : Made where
  type := "autogen.tool.search"
  reason := "tool raised: timeout"
  note := "autogen tool search raised"
  actionSig :=
    "hluqCOotq4-PMFMsSNdkR9HhM-Nhvvv14l1WycPlRztDNx4zHsODabaTLAyQSNkPsYwS3cweaiehJptsg2PeDQ"
  digest := "a3LhEqm_bXr9jT2OfwNMcSpeU0z5SY5hH45_LqlScz8"
  correctionSig :=
    "LAki5aEpvHr7R703sRkwhIeN-ysBhnHD9Ekpi8CiTmXYuYlMHNoEfwhHtBNtA7y7V3werU2KeoKFT4lKlkP9Dw"

/-- The same call in CrewAI. -/
def crewai : Made where
  type := "crewai.tool.search"
  reason := "timeout"
  note := "crewai tool search errored: timeout"
  actionSig :=
    "v7AsdfOreIa_aUQAYkcY5QGWfHT0p6Rb1shLDq4ccdYu5_A5BysZRkTKLCxhVsLIF0_jny43XTgpdtMj3YEQCw"
  digest := "k621Cxx_kBj6FOcg0rD_aUMYxhfBOwxsHKUlHOgXsaA"
  correctionSig :=
    "c20XoBwT2PKRT47ZnisWvDUsWEFVEFn5OSWdKPouKzt1dEdESPk1xe2tcX8zCOCx0nSjG8cFMVZEeqAgTKLCDQ"

namespace Made

variable (m : Made)

/-- The signed record of the call. -/
def action : PyValue := actionWith m.type m.actionSig

/-- What is signed, with the signatures. -/
def signatures : List (Bytes × String) :=
  [(bytes (actionWith m.type ""), m.actionSig),
    (bytes (correctionWith m.type m.digest m.reason m.note ""), m.correctionSig)]

end Made

/-- The value of a table, with zeros where there is none. -/
def entry (size : ℕ) (table : List (Bytes × String)) (data : Bytes) : Bytes :=
  (raw size ((table.lookup data).getD "") ++ List.replicate size 0).take size

/-- A table of signatures or digests gives values of the right size, whatever is asked for. -/
@[simp] theorem length_entry (size : ℕ) (table : List (Bytes × String)) (data : Bytes) :
    (entry size table data).length = size := by
  simp [entry]

/-- The record of a second call, of CrewAI, with a signature to fill in. -/
def secondAction : String → PyValue :=
  actionAt "00000000-0000-4000-8000-000000000003" "2026-08-25T00:01:00+00:00" crewai.type

/-- What is signed for the second call, with its signature. -/
def secondSignature : Bytes × String :=
  (bytes (secondAction ""),
    "J9Guzrt7Br9qAnTuqmwuEAs024f8hPGbefS3SEVoKX4j-JG4ebBWg8gCjxCxZ8IfXp5BlNbmPsZOfyi2lkSHCA")

/-- The signatures of all records of the samples. -/
def sign (data : Bytes) : Bytes :=
  entry 64 (secondSignature :: (autogen.signatures ++ crewai.signatures)) data

/-- The digests of the arguments and of the two records that are corrected. -/
def sha256 (data : Bytes) : Bytes :=
  entry 32 [(bytes arguments.val, "ymkQjnTNYHUVDt0tyhfCLjScuwyczppCZ0E6THpOCHg"),
    (bytes autogen.action, autogen.digest), (bytes crewai.action, crewai.digest)] data

/-- The platform on these records. -/
def platform : Platform :=
  { Corrlog.Vector.platform with
    sign := fun _ data => sign data
    verify := fun k sig data => decide (k.val = raw 32 key ∧ sig = sign data)
    sha256 := sha256
    length_sign := fun _ data => length_entry 64 _ data }

theorem platform_sha256 (data : Bytes) : (platform.sha256 data).length = 32 :=
  length_entry 32 _ data

/-- What is looked up in the table verifies. -/
theorem platform_verify (data : Bytes) :
    platform.verify (platform.publicKey ()) (platform.sign () data) data = true :=
  decide_eq_true ⟨rfl, rfl⟩

/-- An adapter with the key of the frozen vectors. -/
def adapter : Adapter platform where
  privateKey := ()
  agentId := lit "vector-agent"

/-- The sample's call can be recorded. -/
theorem recordable : Recordable adapter (lit "search") arguments .none where
  agentId := ⟨by decide, noSurrogates_lit _⟩
  principalId := ⟨by decide, noSurrogates_lit _⟩
  toolName := noSurrogates_lit _
  args := signable_arguments
  callId htruthy := by cases htruthy

/-- The surroundings of the record of the call. -/
def env : Env := ⟨lit "00000000-0000-4000-8000-000000000001", lit "2026-08-25T00:00:00+00:00"⟩

/-- The surroundings of its correction, a minute later. -/
def env' : Env := ⟨lit "00000000-0000-4000-8000-000000000002", lit "2026-08-25T00:01:00+00:00"⟩

/-- The surroundings of the second call. -/
def env'' : Env := ⟨lit "00000000-0000-4000-8000-000000000003", lit "2026-08-25T00:01:00+00:00"⟩

/-- The surroundings of a call that draws an identifier and makes no record. -/
def idleEnv : Env := ⟨lit "00000000-0000-4000-8000-000000000004", lit "2026-08-25T00:01:00+00:00"⟩

theorem env_proper : env.Proper platform := by
  constructor <;> decide +kernel

theorem env'_proper : env'.Proper platform := by
  constructor <;> decide +kernel

theorem env''_proper : env''.Proper platform := by
  constructor <;> decide +kernel

/-- The platform with the signatures and the digests of tables. -/
def tablePlatform (signatures digests : List (Bytes × String)) : Platform :=
  { Corrlog.Vector.platform with
    sign := fun _ data => entry 64 signatures data
    verify := fun k sig data => decide (k.val = raw 32 key ∧ sig = entry 64 signatures data)
    sha256 := entry 32 digests
    length_sign := fun _ data => length_entry 64 _ data }

section

variable {signatures digests : List (Bytes × String)}

theorem tablePlatform_sha256 (data : Bytes) :
    ((tablePlatform signatures digests).sha256 data).length = 32 :=
  length_entry 32 _ data

/-- Whatever is in the tables, a signature verifies under its key. -/
theorem tablePlatform_verify (data : Bytes) : (tablePlatform signatures digests).verify
    ((tablePlatform signatures digests).publicKey ())
    ((tablePlatform signatures digests).sign () data) data = true :=
  decide_eq_true ⟨rfl, rfl⟩

/-- Whether surroundings are proper does not depend on the tables. -/
theorem env_proper_table : env.Proper (tablePlatform signatures digests) :=
  ⟨env_proper.uuid_ne_nil, env_proper.uuid, env_proper.now, env_proper.isDateTime⟩

theorem env'_proper_table : env'.Proper (tablePlatform signatures digests) :=
  ⟨env'_proper.uuid_ne_nil, env'_proper.uuid, env'_proper.now, env'_proper.isDateTime⟩

theorem env''_proper_table : env''.Proper (tablePlatform signatures digests) :=
  ⟨env''_proper.uuid_ne_nil, env''_proper.uuid, env''_proper.now, env''_proper.isDateTime⟩

end

/-- What is signed for the call is the text in the table. -/
example : ((Adapters.action adapter env (lit crewai.type) arguments .none).outcome
    adapter.privateKey).signed = some (bytes (actionWith crewai.type "")) := by
  decide +kernel

example : ((Adapters.action adapter env'' (lit crewai.type) arguments .none).outcome
    adapter.privateKey).signed = some (bytes (secondAction "")) := by
  decide +kernel

end Sample

end Corrlog.Adapters
