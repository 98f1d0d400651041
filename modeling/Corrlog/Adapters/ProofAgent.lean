import Corrlog.Adapters.Calls
import Corrlog.Core.Domain
import Corrlog.Core.Lifecycle
import Corrlog.Python.Decoders

/-!
# ProofAgent

`gate_to_acr` turns the verdict of a governance gate into a receipt.  It reads the
verdict from whatever ProofAgent hands over, makes a record of the evaluation, and
returns the correction of this record.  `report_to_acr` does so for a report and a
verdict that is given beside it.

There is no receipt exactly for `pass`.  For `review` and `block` there is one exactly if
the arguments and the reasons can be signed, and for any other verdict `gate_to_acr`
raises (`gate_receipts`).  The receipt verifies and says what the gate said, but the record
it corrects is not returned, and without it no chain can be presented.
-/

namespace Corrlog.ProofAgent

open Python
open Adapters (asObject asObject_eq_ok asObject_val noSurrogates_intercalate)

/-! ## The code -/

/-- What ProofAgent hands over: a value, such as a saved report, or an object with
attributes. -/
inductive Source where
  | value (v : PyObject)
  | object (attributes : List (String × PyObject))

/-- `_get` of a value. -/
def getValue (v : PyValue) (key : String) (default : PyValue) : PyValue :=
  match v with
  | .dict items => (getStr key items).getD default
  | _ => default

/-- `_get`. -/
def get (obj : Source) (key : String) (default : PyValue) : PyValue :=
  match obj with
  | .value v => getValue v.val key default
  | .object attributes => ((attributes.lookup key).map PyObject.val).getD default

/-- The loop of `_decision`. -/
def nestedDecision (obj d : PyValue) : List String → PyValue
  | [] => d
  | alt :: alts =>
      let nested := getValue obj alt .none
      if nested.isDict then
        let d := getValue nested "decision" .none
        if truthy d then d else nestedDecision obj d alts
      else nestedDecision obj d alts

/-- `d` of `_decision`. -/
def rawDecision (obj : Source) : PyValue :=
  let d := get obj "decision" .none
  match obj with
  | .value v =>
      if isNone d && v.val.isDict then
        nestedDecision v.val d ["verdict", "pai", "gate_decision"]
      else d
  | .object _ => d

/-- What depends on the interpreter and on objects of other types. -/
structure Builtins where
  /-- `str.lower`. -/
  lower : PyStr → PyStr
  /-- `list(o)`. -/
  list : Foreign → Except PyErr (List PyValue)
  /-- `len(o)`, if `o` has one. -/
  len : Foreign → Option ℕ

section

variable (P : Platform) (B : Builtins)

/-- `str(v)`. -/
def asStr (v : PyValue) : Except PyErr PyStr :=
  match pyStr P v with
  | some s => .ok s
  | none => builtinError .ValueError

/-- `_decision`. -/
def decision (obj : Source) : Except PyErr (Option PyStr) :=
  let d := rawDecision obj
  if isNone d then .ok none else (asStr P d).map fun s => some (B.lower (stripStr s))

/-- A key as a value. -/
def ofKey : PyKey → PyValue
  | .str s => .str s
  | .none => .none
  | .bool b => .bool b
  | .int n => .int n
  | .float x => .float x
  | .other o => .other o

/-- `list(v)`, for a value that is no string. -/
def asList : PyValue → Except PyErr (List PyValue)
  | .list xs => .ok xs
  | .tuple xs => .ok xs
  | .dict items => .ok (items.map fun kv => ofKey kv.1)
  | .other o => B.list o
  | _ => builtinError .TypeError

/-- `_get(obj, key, []) or []`, with a string in a list. -/
def listOf (obj : Source) (key : String) : Except PyErr (List PyValue) :=
  let v := get obj key (.list [])
  if truthy v then (if v.isStr then .ok [v] else asList B v) else .ok []

/-- `_reasons`. -/
def reasons (obj : Source) : Except PyErr (List PyStr) := do
  let r ← listOf B obj "reasons"
  let fr ← listOf B obj "failed_rules"
  ((r ++ fr).filter truthy).mapM (asStr P)

end

/-- A dict. -/
structure Dict where
  items : Items
  wf : (PyValue.dict items).WF

namespace Dict

/-- `d[k] = v`. -/
def set (d : Dict) (k : String) (v : PyObject) : Dict :=
  ⟨setStr k v.val d.items, PyValue.wf_setStr v.wf d.wf⟩

/-- A dict as an argument. -/
def object (d : Dict) : PyObject := ⟨.dict d.items, d.wf⟩

theorem wf_nil : (PyValue.dict []).WF := rfl

/-- `{}`. -/
def empty : Dict := ⟨[], wf_nil⟩

end Dict

/-- A list of strings as a value. -/
def strList (ss : List PyStr) : PyObject :=
  ⟨.list (ss.map .str), (PyValue.wf_list _).mpr (List.forall_mem_map.mpr fun s _ =>
    PyValue.wf_str s)⟩

/-- The arguments of `gate_to_acr`.  The metadata are a dict or `None`, as annotated. -/
structure GateArgs (P : Platform) where
  gateResult : Source
  privateKey : P.PrivateKey
  agentId : PyObject
  principalId : PyObject := .str "unknown"
  principalType : PyObject := .str "organization"
  agentName : PyObject := .none
  actionTarget : PyObject := .none
  metadata : Option Dict := none
  correctionId : PyObject := .none
  timestamp : PyObject := .none

variable {P : Platform} {B : Builtins}

/-- `reason`. -/
def reasonText (decision : PyStr) (reasons : List PyStr) : PyStr :=
  if reasons = [] then lit "governance gate returned " ++ decision
  else (lit "; ").intercalate reasons

/-- `dict(metadata or {})`. -/
def asMetadata (metadata : Option Dict) : Dict := metadata.getD .empty

/-- `meta` of `gate_to_acr`. -/
def gateMetadata (a : GateArgs P) (decision : PyStr) (reasons : List PyStr) : Dict :=
  ((asMetadata a.metadata).set "gate_decision" (strObject decision)).set "reasons" (strList reasons)

/-- The arguments of `record`. -/
def evaluation (a : GateArgs P) (decision : PyStr) : RecordArgs where
  agentId := a.agentId
  agentName := a.agentName
  principalId := a.principalId
  principalType := a.principalType
  actionType := .str "agent.evaluation"
  actionTarget := a.actionTarget
  actionArgs := oneItem "harness" (.str "proofagent")
  actionResult := oneItem "gate_decision" (strObject decision)
  timestamp := a.timestamp

/-- The arguments of `retract`. -/
def verdict (a : GateArgs P) (decision : PyStr) (reasons : List PyStr) (action : PyObject) :
    RetractArgs where
  priorRecord := action
  reason := strObject (reasonText decision reasons)
  trigger := .str "check_failed"
  agentId := a.agentId
  principalId := a.principalId
  principalType := a.principalType
  fixType := .str "other"
  fixNote := strObject (lit "ProofAgent governance gate returned " ++ decision ++
    lit ". Operator attests that this evaluator caught the failure.")
  metadata := (gateMetadata a decision reasons).object
  correctionId := a.correctionId
  timestamp := a.timestamp

/-- `gate_to_acr` from `meta` on.  The two calls have their own surroundings. -/
def receipt (env env' : Env) (a : GateArgs P) (decision : PyStr) (reasons : List PyStr) :
    Except PyErr PyObject := do
  let action ← (Call.record env (evaluation a decision)).object a.privateKey
  (Call.retract env' (verdict a decision reasons action)).object a.privateKey

/-- The `ValueError` for a decision that is none of the three. -/
def unexpected {α : Type} (P : Platform) (decision : PyStr) : Except PyErr α :=
  match P.repr (.str decision) with
  | some r => .error ⟨.ValueError, lit "unexpected gate decision " ++ r ++
      lit " (expected pass/review/block)"⟩
  | none => builtinError .ValueError

/-- `gate_to_acr`. -/
def gateToAcr (B : Builtins) (env env' : Env) (a : GateArgs P) :
    Except PyErr (Option PyObject) := do
  match ← decision P B a.gateResult with
  | none => raise .ValueError "gate_result has no readable 'decision' field"
  | some d =>
      if d = lit "pass" then return none
      else if d ≠ lit "review" ∧ d ≠ lit "block" then unexpected P d
      else
        let reasons ← reasons P B a.gateResult
        some <$> receipt env env' a d reasons

/-- `len(v)`, if there is one. -/
def len (B : Builtins) : PyValue → Option ℕ
  | .str s => some s.length
  | .list xs => some xs.length
  | .tuple xs => some xs.length
  | .dict items => some items.length
  | .other o => B.len o
  | _ => none

/-- `final_score`. -/
def finalScore (report : Source) : PyValue := get report "final_score" .none

/-- `n_findings`. -/
def findingsCount (B : Builtins) (report : Source) : Option ℕ :=
  let findings := get report "findings" (.list [])
  len B (if truthy findings then findings else .list [])

/-- `meta` of `report_to_acr`. -/
def reportMetadata (B : Builtins) (report : Source) (metadata : Option Dict) : Except PyErr Dict := do
  let metadata := asMetadata metadata
  let metadata ← (if isNone (finalScore report) then .ok metadata
    else (asObject (finalScore report)).map (metadata.set "final_score"))
  match findingsCount B report with
  | some n => return metadata.set "findings_count" ⟨.int n, rfl⟩
  | none => return metadata

/-- `report_to_acr`.  What `gate_to_acr` is called with replaces the gate's result and the
metadata. -/
def reportToAcr (B : Builtins) (env env' : Env) (report : Source) (gateDecision : PyObject)
    (a : GateArgs P) : Except PyErr (Option PyObject) := do
  let metadata ← reportMetadata B report a.metadata
  let gateResult ← asObject (dictOf
    [("decision", gateDecision.val), ("reasons", get report "warnings" (.list []))])
  gateToAcr B env env' { a with
    gateResult := .value gateResult
    metadata := if metadata.items = [] then none else some metadata }

/-! ## What is due -/

/-- The verdict is that the gate has failed. -/
def IsFailure (decision : PyStr) : Prop := decision = lit "review" ∨ decision = lit "block"

/-- The arguments and the reasons can be signed. -/
structure Attestable (a : GateArgs P) (decision : PyStr) (reasons : List PyStr) : Prop where
  agentId : IsNameValue a.agentId.val
  agentName : truthy a.agentName.val = true → IsTextValue a.agentName.val
  principalId : IsNameValue a.principalId.val
  principalType : IsTextValue a.principalType.val
  actionTarget : truthy a.actionTarget.val = true → IsTextValue a.actionTarget.val
  metadata : SignableBut ["gate_decision", "reasons"] (asMetadata a.metadata).items
  correctionId : isNone a.correctionId.val = false → IsNameValue a.correctionId.val
  timestamp : isNone a.timestamp.val = false →
    ∃ s, a.timestamp.val = .str s ∧ noSurrogates s = true ∧ P.isDateTime s = true
  reason : IsName (reasonText decision reasons)

/-- The receipt of a failure. -/
structure ReceiptOf (a : GateArgs P) (decision : PyStr) (reasons : List PyStr) (r : PyValue) :
    Prop where
  verified : verify P r (some (P.publicKey a.privateKey)) = true
  agent : entry r "agent" "id" = .ok a.agentId.val
  reason : r.getItem "reason" = .ok (.str (reasonText decision reasons))
  trigger : r.getItem "trigger" = .ok (.str (lit "check_failed"))
  fixType : entry r "fix" "type" = .ok (.str (lit "other"))
  metadata : r.getItem "metadata" = .ok (.dict (gateMetadata a decision reasons).items)

/-- The identifier of the receipt. -/
def receiptId (env' : Env) (a : GateArgs P) : PyValue :=
  orDefault a.correctionId.val (.str env'.uuid)

/-! ## When there is a receipt -/

section

variable {a : GateArgs P} {d : PyStr} {reasons : List PyStr} {env env' : Env}

theorem receipt_eq_ok {r : PyObject} :
    receipt env env' a d reasons = .ok r ↔
      ∃ action, (Call.record env (evaluation a d)).object a.privateKey = .ok action ∧
        (Call.retract env' (verdict a d reasons action)).object a.privateKey = .ok r := bind_eq_ok

theorem IsFailure.noSurrogates (h : IsFailure d) : noSurrogates d = true := by
  rcases h with rfl | rfl <;> exact noSurrogates_lit _

/-- The reason holds all reasons. -/
theorem noSurrogates_reasons (h : noSurrogates (reasonText d reasons) = true) :
    ∀ r ∈ reasons, noSurrogates r = true := by
  rw [reasonText] at h
  split at h
  next hnil =>
    rw [hnil]
    simp
  next => exact (noSurrogates_intercalate (noSurrogates_lit "; ")).mp h

theorem signable_gateMetadata (hd : noSurrogates d = true)
    (hr : ∀ r ∈ reasons, noSurrogates r = true) :
    SignableBut [] (gateMetadata a d reasons).items ↔
      SignableBut ["gate_decision", "reasons"] (asMetadata a.metadata).items := by
  have hlist : Signable (strList reasons).val := signable_list fun v hv => by
    obtain ⟨s, hs, rfl⟩ := List.mem_map.mp hv
    exact signable_str.mpr (hr s hs)
  have hdecision : Signable (strObject d).val := signable_str.mpr hd
  exact (signableBut_setStr hlist).trans (signableBut_setStr hdecision)

/-- Given an evaluation, the two calls return exactly if everything can be signed. -/
theorem evaluation_domain (hd : noSurrogates d = true) (h : Attestable a d reasons) :
    RecordDomain P (evaluation a d) where
  common := {
    agentId := h.agentId
    principalId := h.principalId
    principalType := h.principalType
    kid := nofun
    metadata := nofun
    correctionId := nofun
    timestamp := h.timestamp }
  agentName := h.agentName
  actionType := ⟨_, rfl, List.cons_ne_nil _ _, noSurrogates_lit _⟩
  actionTarget := h.actionTarget
  actionArgs := fun _ => (signable_dictOf (single_wf (PyValue.wf_str _))).mpr
    (List.forall_mem_singleton.mpr (signable_str.mpr (noSurrogates_lit _)))
  actionResult := fun _ => (signable_dictOf (single_wf (PyValue.wf_str _))).mpr
    (List.forall_mem_singleton.mpr (signable_str.mpr hd))

theorem verdict_domain {action : PyObject} (hd : noSurrogates d = true)
    (hprior : Retractable action.val) (h : Attestable a d reasons) :
    RetractDomain P (verdict a d reasons action) where
  common := {
    agentId := h.agentId
    principalId := h.principalId
    principalType := h.principalType
    kid := nofun
    metadata := fun _ =>
      ⟨_, rfl, (signable_gateMetadata hd (noSurrogates_reasons h.reason.2)).mpr h.metadata⟩
    correctionId := h.correctionId
    timestamp := h.timestamp }
  prior := hprior
  reason := isNameValue_str.mpr h.reason
  trigger := ⟨"check_failed", by simp [validTriggers], rfl⟩
  fixType := ⟨"other", by simp [validFixTypes], rfl⟩
  fixNote := fun _ => ⟨_, rfl, by simp [hd]⟩
  correctedContent := nofun
  source := .inl ⟨rfl, rfl⟩

theorem attestable_of_domains {action : PyObject} (hd : noSurrogates d = true)
    (h : RecordDomain P (evaluation a d)) (h' : RetractDomain P (verdict a d reasons action)) :
    Attestable a d reasons where
  agentId := h.common.agentId
  agentName := h.agentName
  principalId := h.common.principalId
  principalType := h.common.principalType
  actionTarget := h.actionTarget
  metadata := by
    have hreason : IsName (reasonText d reasons) := isNameValue_str.mp h'.reason
    obtain ⟨_, he, hs⟩ := h'.common.metadata rfl
    cases he
    exact (signable_gateMetadata hd (noSurrogates_reasons hreason.2)).mp hs
  correctionId := h'.common.correctionId
  timestamp := h.common.timestamp
  reason := isNameValue_str.mp h'.reason

/-- There is a receipt exactly if the arguments and the reasons can be signed. -/
theorem receipt_ok_iff (henv : env.Proper P) (henv' : env'.Proper P)
    (hsha : ∀ data, (P.sha256 data).length = 32) (hd : IsFailure d) :
    (∃ r, receipt env env' a d reasons = .ok r) ↔ Attestable a d reasons := by
  constructor
  · rintro ⟨r, h⟩
    obtain ⟨action, haction, h⟩ := receipt_eq_ok.mp h
    have hrecord := (record_ok_iff henv).mp ⟨_, Call.object_eq_ok.mp haction⟩
    have hretract := (retract_ok_iff henv' hsha).mp ⟨_, Call.object_eq_ok.mp h⟩
    exact attestable_of_domains hd.noSurrogates hrecord hretract
  · intro h
    obtain ⟨action, haction⟩ := (Call.exists_object (c := .record env _)).mpr
      ((record_ok_iff henv).mpr (evaluation_domain hd.noSurrogates h))
    have hprior : Retractable action.val := retractable_of_record (Call.object_eq_ok.mp haction)
    obtain ⟨r, hr⟩ := (Call.exists_object (c := .retract env' _)).mpr
      ((retract_ok_iff henv' hsha).mpr (verdict_domain hd.noSurrogates hprior h))
    exact ⟨r, receipt_eq_ok.mpr ⟨action, haction, hr⟩⟩

/-! ## What the receipt is -/

section

variable (hsign : ∀ data,
  P.verify (P.publicKey a.privateKey) (P.sign a.privateKey data) data = true)

include hsign

theorem receiptOf_receipt {r : PyObject} (h : receipt env env' a d reasons = .ok r) :
    ReceiptOf a d reasons r.val := by
  obtain ⟨_, _, h⟩ := receipt_eq_ok.mp h
  have hr := Call.object_eq_ok.mp h
  obtain ⟨_, _, hret⟩ := retract_returned hr
  have he := retract_entries hr
  exact {
    verified := hret.verify hsign
    agent := he.agentId
    reason := he.reason
    trigger := he.trigger
    fixType := he.fixType
    metadata := he.metadata }

/-- With the record of the evaluation the receipt is a chain. -/
theorem receipt_chain {action r : PyObject}
    (haction : (Call.record env (evaluation a d)).object a.privateKey = .ok action)
    (h : (Call.retract env' (verdict a d reasons action)).object a.privateKey = .ok r)
    (hid : receiptId env' a ≠ .str env.uuid) :
    verifyChain P (.list [action.val, r.val]) (some (P.publicKey a.privateKey)) .none = true := by
  have hrecord := Call.object_eq_ok.mp haction
  have hr := Call.object_eq_ok.mp h
  have hroot : ∀ x ∈ [action.val, r.val].head?, IsRoot a.privateKey x := by
    intro x hx
    rw [← Option.some.inj hx]
    exact .inl ⟨_, _, hrecord⟩
  have hnext : [action.val, r.val].IsChain (Corrects a.privateKey) :=
    .cons_cons ⟨_, _, .inl rfl, hr⟩ (.singleton _)
  have hids : [action.val, r.val].Pairwise fun r r' =>
      r.getItem "correctionId" ≠ r'.getItem "correctionId" := by
    refine List.pairwise_pair.mpr fun he => hid ?_
    rw [(record_entries hrecord).correctionId, (retract_entries hr).correctionId,
      Except.ok.injEq] at he
    exact he.symm
  exact (lifecycle hsign hroot hnext (List.cons_ne_nil _ _) hids).2.1

/-- Without that record no chain starts with it. -/
theorem receipt_not_first {r : PyObject} (h : receipt env env' a d reasons = .ok r)
    (rest : List PyValue) (publicKey : Option P.PublicKey) (checkpoint : PyValue) :
    verifyChain P (.list (r.val :: rest)) publicKey checkpoint = false := by
  obtain ⟨_, _, h⟩ := receipt_eq_ok.mp h
  obtain ⟨_, _, hret⟩ := retract_returned (Call.object_eq_ok.mp h)
  obtain ⟨ritems, _, _, _, _, _, hr, _, hsup, _⟩ := hret.verified hsign
  rw [← Bool.not_eq_true, verifyChain_iff]
  rintro ⟨hhistory, _⟩
  have hfirst : linked P none r.val = .ok true := hhistory.first _ rfl
  rw [hr, linked_none, hsup] at hfirst
  cases hfirst

end

/-! ## The gate -/

theorem pass_not_failure : ¬ IsFailure (lit "pass") := by
  rw [IsFailure]
  decide

/-- What is returned for each decision. -/
theorem gateToAcr_eq_ok {o : Option PyObject} :
    gateToAcr B env env' a = .ok o ↔
      ∃ d, decision P B a.gateResult = .ok (some d) ∧
        (d = lit "pass" ∧ o = none ∨
          IsFailure d ∧ ∃ rs r, ProofAgent.reasons P B a.gateResult = .ok rs ∧
            receipt env env' a d rs = .ok r ∧ o = some r) := by
  rw [gateToAcr, bind_eq_ok]
  constructor
  · rintro ⟨_ | d, hd, h⟩
    · cases h
    · refine ⟨d, hd, ?_⟩
      dsimp only at h
      split at h
      next hpass =>
        cases h
        exact .inl ⟨hpass, rfl⟩
      next =>
        split at h
        next =>
          rw [unexpected] at h
          split at h <;> cases h
        next hfail =>
          have hfail : IsFailure d := by
            rw [IsFailure]
            tauto
          obtain ⟨rs, hrs, h⟩ := bind_eq_ok.mp h
          obtain ⟨r, hr, rfl⟩ := map_eq_ok.mp h
          exact .inr ⟨hfail, rs, r, hrs, hr, rfl⟩
  · rintro ⟨d, hd, ⟨rfl, rfl⟩ | ⟨hfail, rs, r, hrs, hr, rfl⟩⟩
    · exact ⟨_, hd, if_pos rfl⟩
    · refine ⟨_, hd, ?_⟩
      have hpass : d ≠ lit "pass" := by
        rintro rfl
        exact pass_not_failure hfail
      dsimp only
      rw [if_neg hpass, if_neg (by rw [IsFailure] at hfail; tauto)]
      exact bind_eq_ok.mpr ⟨rs, hrs, map_eq_ok.mpr ⟨r, hr, rfl⟩⟩

end

section

variable {a : GateArgs P} {env env' : Env} (henv : env.Proper P) (henv' : env'.Proper P)
  (hsign : ∀ data, P.verify (P.publicKey a.privateKey) (P.sign a.privateKey data) data = true)
  (hsha : ∀ data, (P.sha256 data).length = 32)

include henv henv' hsign hsha

/-- There is no receipt exactly for `pass`, and one exactly for a failure of which the
arguments and the reasons can be signed.  It says what the gate said and verifies; it is a
chain with the record of the evaluation that the call has made, which is not returned, and
no chain starts with it. -/
theorem gate_receipts :
    (gateToAcr B env env' a = .ok none ↔
      decision P B a.gateResult = .ok (some (lit "pass"))) ∧
    ((∃ r, gateToAcr B env env' a = .ok (some r)) ↔
      ∃ d rs, decision P B a.gateResult = .ok (some d) ∧ IsFailure d ∧
        reasons P B a.gateResult = .ok rs ∧ Attestable a d rs) ∧
    ∀ r, gateToAcr B env env' a = .ok (some r) →
      (∃ d rs action, decision P B a.gateResult = .ok (some d) ∧ IsFailure d ∧
        reasons P B a.gateResult = .ok rs ∧ ReceiptOf a d rs r.val ∧
        (Call.record env (evaluation a d)).object a.privateKey = .ok action ∧
        (receiptId env' a ≠ .str env.uuid → verifyChain P (.list [action.val, r.val])
          (some (P.publicKey a.privateKey)) .none = true)) ∧
      ∀ rest publicKey checkpoint,
        verifyChain P (.list (r.val :: rest)) publicKey checkpoint = false := by
  refine ⟨?_, ?_, fun r h => ?_⟩
  · rw [gateToAcr_eq_ok]
    constructor
    · rintro ⟨d, hd, ⟨rfl, _⟩ | ⟨_, _, _, _, _, h⟩⟩
      · exact hd
      · cases h
    · exact fun hd => ⟨_, hd, .inl ⟨rfl, rfl⟩⟩
  · simp only [gateToAcr_eq_ok]
    constructor
    · rintro ⟨r, d, hd, ⟨_, h⟩ | ⟨hfail, rs, _, hrs, hr, _⟩⟩
      · cases h
      · exact ⟨d, rs, hd, hfail, hrs, (receipt_ok_iff henv henv' hsha hfail).mp ⟨_, hr⟩⟩
    · rintro ⟨d, rs, hd, hfail, hrs, hatt⟩
      obtain ⟨r, hr⟩ := (receipt_ok_iff henv henv' hsha hfail).mpr hatt
      exact ⟨r, d, hd, .inr ⟨hfail, rs, r, hrs, hr, rfl⟩⟩
  · obtain ⟨d, hd, ⟨_, h⟩ | ⟨hfail, rs, _, hrs, hr, he⟩⟩ := gateToAcr_eq_ok.mp h
    · cases h
    · obtain rfl := Option.some.inj he
      obtain ⟨action, haction, hretract⟩ := receipt_eq_ok.mp hr
      exact ⟨⟨d, rs, action, hd, hfail, hrs, receiptOf_receipt hsign hr, haction,
        receipt_chain hsign haction hretract⟩, receipt_not_first hsign hr⟩

end

namespace Sample

open Adapters.Sample
open Corrlog.Vector (text digest signature bytes)

/-- A saved report with the verdict inside. -/
def gateResult : PyObject :=
  ⟨dictOf [("verdict", dictOf [("decision", text " Block")]),
    ("reasons", .list [text "critical finding"]),
    ("failed_rules", text "no_forbidden_tool_calls")], by decide +kernel⟩

/-- `str.lower`, for ASCII. -/
def asciiLower (s : PyStr) : PyStr :=
  s.map fun
    | .scalar c => .scalar c.toLower
    | c => c

/-- There are no objects of other types in it. -/
def builtins : Builtins where
  lower := asciiLower
  list _ := builtinError .TypeError
  len _ := none

/-- The agent, with the key of the vectors. -/
def agent : PyValue := dictOf [("id", text "agent-1"), ("publicKey", text Vector.key)]

/-- The default principal. -/
def principal : PyValue := dictOf [("id", text "unknown"), ("type", text "organization")]

/-- The record of the evaluation, with a signature to fill in. -/
def action (sig : String) : PyValue :=
  dictOf [("correctionId", text "00000000-0000-4000-8000-000000000001"), ("agent", agent),
    ("principal", principal), ("action", dictOf [("type", text "agent.evaluation")]),
    ("reason", text ""), ("trigger", text "supersede"), ("fix", dictOf [("type", text "noop")]),
    ("timestamp", text "2026-08-25T00:00:00+00:00"),
    ("metadata",
      dictOf [("inputHash", digest "7Vck1jawmjYvfpEXAqoJKVnU3fEjkpiq7pW2VYvA12s"),
        ("outputHash", digest "8GNgXLLACnelwotkn-CWlUTx8rPPfAFfteWaWICNVBI")]),
    ("signature", signature sig)]

/-- Its correction, with a signature to fill in. -/
def receipt (sig : String) : PyValue :=
  dictOf [("correctionId", text "00000000-0000-4000-8000-000000000002"), ("agent", agent),
    ("principal", principal),
    ("supersedes", dictOf [("receiptId", text "00000000-0000-4000-8000-000000000001"),
      ("digest", digest "Y8tyJG480ZEo2VP7M_4jlr232hQkmxKVIedO0KIHQ8s")]),
    ("action", dictOf [("type", text "agent.evaluation")]),
    ("reason", text "critical finding; no_forbidden_tool_calls"), ("trigger", text "check_failed"),
    ("fix", dictOf [("type", text "other"), ("note", text ("ProofAgent governance gate returned " ++
      "block. Operator attests that this evaluator caught the failure."))]),
    ("timestamp", text "2026-08-25T00:01:00+00:00"),
    ("metadata", dictOf [("gate_decision", text "block"),
      ("reasons", .list [text "critical finding", text "no_forbidden_tool_calls"])]),
    ("signature", signature sig)]

/-- The signature of the record of the evaluation. -/
def actionSig : String :=
  "f-crhZ9rh06fpFjwmjBEdD-VyJp1pVluUKpt9ylSRXztjCcA-6t44Fm_UVbOiKS4rmMr_0JT_qOAaQU0olvCBg"

/-- The signature of the receipt. -/
def receiptSig : String :=
  "HvK6P6kEyStR4lWJKwNo-0ZlRVX8KcOYaPhQ1LU0Bf8T0ijJT4N48p5BUcVTEc8T1FnAD9APFcU5Oy2nVjtjDg"

/-- The platform with these two signatures. -/
def platform : Platform :=
  tablePlatform [(bytes (action ""), actionSig), (bytes (receipt ""), receiptSig)]
    [(bytes (dictOf [("harness", text "proofagent")]),
        "7Vck1jawmjYvfpEXAqoJKVnU3fEjkpiq7pW2VYvA12s"),
      (bytes (dictOf [("gate_decision", text "block")]),
        "8GNgXLLACnelwotkn-CWlUTx8rPPfAFfteWaWICNVBI"),
      (bytes (action actionSig), "Y8tyJG480ZEo2VP7M_4jlr232hQkmxKVIedO0KIHQ8s")]

/-- A gate that blocks, for two reasons. -/
def args : GateArgs platform where
  gateResult := .value gateResult
  privateKey := ()
  agentId := .str "agent-1"

/-- The receipt is the one whose signature is in the table. -/
example : ((gateToAcr builtins env env' args).toOption.join.map fun r => bytes r.val) =
    some (bytes (receipt receiptSig)) := by
  decide +kernel

theorem decision_gateResult :
    decision platform builtins args.gateResult = .ok (some (lit "block")) := by
  decide +kernel

theorem reasons_gateResult : reasons platform builtins args.gateResult =
    .ok [lit "critical finding", lit "no_forbidden_tool_calls"] := by
  decide +kernel

theorem attestable :
    Attestable args (lit "block") [lit "critical finding", lit "no_forbidden_tool_calls"] where
  agentId := ⟨_, rfl, List.cons_ne_nil _ _, noSurrogates_lit _⟩
  agentName := nofun
  principalId := ⟨_, rfl, List.cons_ne_nil _ _, noSurrogates_lit _⟩
  principalType := ⟨_, rfl, noSurrogates_lit _⟩
  actionTarget := nofun
  metadata := nofun
  correctionId := nofun
  timestamp := nofun
  reason := by decide

end Sample

/-- The receipt of a sample verifies.  It is a chain with the record of its evaluation, and
none by itself. -/
theorem gate_receipts_sample : ∃ action r,
    gateToAcr Sample.builtins Adapters.Sample.env Adapters.Sample.env' Sample.args =
        .ok (some r) ∧
      verify Sample.platform r.val (some (Sample.platform.publicKey ())) = true ∧
      (Call.record Adapters.Sample.env (evaluation Sample.args (lit "block"))).object
        Sample.args.privateKey = .ok action ∧
      verifyChain Sample.platform (.list [action.val, r.val])
        (some (Sample.platform.publicKey ())) .none = true ∧
      verifyChain Sample.platform (.list [r.val]) none .none = false := by
  obtain ⟨_, hreturns, hreceipt⟩ := @gate_receipts _ Sample.builtins Sample.args
    _ _ Adapters.Sample.env_proper_table Adapters.Sample.env'_proper_table
    Adapters.Sample.tablePlatform_verify Adapters.Sample.tablePlatform_sha256
  obtain ⟨r, hr⟩ := hreturns.mpr ⟨_, _, Sample.decision_gateResult, .inr rfl,
    Sample.reasons_gateResult, Sample.attestable⟩
  obtain ⟨⟨d, _, action, hd, _, _, h, haction, hchain⟩, hfirst⟩ := hreceipt r hr
  cases Sample.decision_gateResult.symm.trans hd
  have hid : receiptId Adapters.Sample.env' Sample.args ≠ .str Adapters.Sample.env.uuid := by
    rw [Ne, receiptId, show orDefault Sample.args.correctionId.val _ =
      .str Adapters.Sample.env'.uuid from rfl, PyValue.str.injEq]
    decide
  exact ⟨action, r, hr, h.verified, haction, hchain hid, hfirst [] none .none⟩

/-! ## Reports -/

section

variable {report : Source} {gateDecision : PyObject} {a : GateArgs P} {env env' : Env}

/-- What is in the metadata of a report. -/
theorem reportMetadata_eq_ok {metadata : Option Dict} {m : Dict}
    (h : reportMetadata B report metadata = .ok m) :
    (isNone (finalScore report) = false →
      getStr "final_score" m.items = some (finalScore report)) ∧
    ∀ n ∈ findingsCount B report, getStr "findings_count" m.items = some (.int n) := by
  obtain ⟨m', hm, h⟩ := bind_eq_ok.mp h
  have hscore : isNone (finalScore report) = false →
      getStr "final_score" m'.items = some (finalScore report) := by
    intro hnone
    rw [hnone, if_neg Bool.false_ne_true] at hm
    obtain ⟨v, hv, rfl⟩ := map_eq_ok.mp hm
    exact (getStr_setStr_self _ _ _).trans (congrArg some (asObject_val hv))
  split at h
  next n hn =>
    cases h
    refine ⟨fun hs => ?_, fun k hk => ?_⟩
    · exact (getStr_setStr_ne (by decide) _ _).trans (hscore hs)
    · cases hn.symm.trans hk
      exact getStr_setStr_self _ _ _
  next hn =>
    cases h
    refine ⟨hscore, fun n hk => ?_⟩
    rw [hn] at hk
    cases hk

/-- `metadata or None` has the same items. -/
theorem asMetadata_orNone (m : Dict) :
    (asMetadata (if m.items = [] then none else some m)).items = m.items := by
  split
  next h => exact h.symm
  next => rfl

theorem decision_of_report {d : PyStr} {g : PyObject} {warnings : PyValue}
    (hg : asObject (dictOf [("decision", gateDecision.val), ("reasons", warnings)]) = .ok g)
    (h : decision P B (.value g) = .ok (some d)) :
    ∃ s, asStr P gateDecision.val = .ok s ∧ d = B.lower (stripStr s) := by
  have hget (k : String) (default : PyValue) : getValue g.val k default =
      (([("decision", gateDecision.val), ("reasons", warnings)].lookup k).getD default) := by
    rw [asObject_val hg]
    exact congrArg (·.getD default) (getStr_members _ _)
  have hraw : rawDecision (.value g) = gateDecision.val := by
    have hdecision : get (.value g) "decision" .none = gateDecision.val := hget "decision" .none
    have hnested : nestedDecision g.val gateDecision.val ["verdict", "pai", "gate_decision"] =
        gateDecision.val := by
      simp [nestedDecision, hget, List.lookup_cons, PyValue.isDict]
    rw [rawDecision, hdecision, hnested, ite_self]
  rw [decision, hraw] at h
  split at h
  next => cases h
  next =>
    obtain ⟨s, hs, he⟩ := map_eq_ok.mp h
    exact ⟨s, hs, (Option.some.inj he).symm⟩

/-- The receipt of a report says the decision, how many findings it has, and its score. -/
theorem report_receipts
    (hsign : ∀ data, P.verify (P.publicKey a.privateKey) (P.sign a.privateKey data) data = true)
    {r : PyObject} (h : reportToAcr B env env' report gateDecision a = .ok (some r)) :
    verify P r.val (some (P.publicKey a.privateKey)) = true ∧
    (∃ s, asStr P gateDecision.val = .ok s ∧ IsFailure (B.lower (stripStr s)) ∧
      entry r.val "metadata" "gate_decision" = .ok (.str (B.lower (stripStr s)))) ∧
    (isNone (finalScore report) = false →
      entry r.val "metadata" "final_score" = .ok (finalScore report)) ∧
    ∀ n ∈ findingsCount B report, entry r.val "metadata" "findings_count" = .ok (.int n) := by
  obtain ⟨m, hm, h⟩ := bind_eq_ok.mp h
  obtain ⟨hscore, hcount⟩ := reportMetadata_eq_ok hm
  obtain ⟨g, hg, h⟩ := bind_eq_ok.mp h
  obtain ⟨d, hd, ⟨_, h⟩ | ⟨hfail, rs, _, hrs, hr, he⟩⟩ := gateToAcr_eq_ok.mp h
  · cases h
  · obtain rfl := Option.some.inj he
    obtain ⟨s, hs, rfl⟩ := decision_of_report hg hd
    have hrec := receiptOf_receipt (a := { a with
      gateResult := .value g
      metadata := if m.items = [] then none else some m }) hsign hr
    have hentry {k : String} {v : PyValue} (hv : getStr k (setStr "reasons" (strList rs).val
        (setStr "gate_decision" (.str (B.lower (stripStr s))) m.items)) = some v) :
        entry r.val "metadata" k = .ok v := by
      refine bind_eq_ok.mpr ⟨_, hrec.metadata, PyValue.getItem_eq_ok.mpr ⟨_, rfl, ?_⟩⟩
      simp only [gateMetadata, Dict.set, asMetadata_orNone]
      exact hv
    refine ⟨hrec.verified, ⟨s, hs, hfail, hentry ?_⟩, fun hf => hentry ?_, fun n hn => hentry ?_⟩
    · rw [getStr_setStr_ne (by decide), getStr_setStr_self]
    · rw [getStr_setStr_ne (by decide), getStr_setStr_ne (by decide), hscore hf]
    · rw [getStr_setStr_ne (by decide), getStr_setStr_ne (by decide), hcount n hn]

end

end Corrlog.ProofAgent
