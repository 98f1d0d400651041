import Corrlog.Adapters.Calls
import Corrlog.Adapters.Inspect
import Corrlog.Core.Domain
import Corrlog.Core.Ledger
import Corrlog.Core.Lifecycle
import Corrlog.Core.Seeds

/-!
# The receipts of the Inspect hook

The hook does with any signer and any sink what `hook_runs` says.  With the signer and
the sink it makes for itself, the one after the key of the operator and the other a
JSONL file, this comes down to what the file holds.

Whatever the events, the file holds what was there and then one receipt for each sample
with a score of `INCORRECT` that can be signed, in their order (`receipts_file`).  A
receipt verifies, blames the model that the eval was started with, and carries the
sample and the scorers.  It names a record that nobody has kept, so no chain starts
with it.
-/

namespace Corrlog.Inspect

open Python
open Adapters (asObject asObject_eq_ok noSurrogates_intercalate)
open Machine

/-! ## The code -/

variable {P : Platform}

/-- The arguments of `record` in `CorrlogSigner.sign`. -/
def sampleRecord (agentId subjectRef failing : PyObject) : RecordArgs where
  agentId := agentId
  principalId := .str "inspect-operator"
  principalType := .str "organization"
  actionType := .str "eval.sample"
  actionTarget := subjectRef
  actionResult := failing

/-- The arguments of `retract` in it. -/
def sampleRetract (action agentId detail trigger fixType metadata : PyObject) : RetractArgs where
  priorRecord := action
  reason := detail
  trigger := trigger
  agentId := agentId
  principalId := .str "inspect-operator"
  principalType := .str "organization"
  fixType := fixType
  fixNote := detail
  metadata := metadata

/-- `dict(correction.get("metadata") or {})`, for payloads with a dict there:
`build_correction` puts one there, and `sign` is called on what it returns.  Of an
iterable of pairs Python would make a dict too; here it is a `TypeError`. -/
def metadataOf (correction : PyValue) : Except PyErr PyValue := do
  let metadata ← correction.getMethod "metadata" .none
  if truthy metadata then
    if metadata.isDict then return metadata else builtinError .TypeError
  else return dictOf []

/-- `CorrlogSigner.sign`.  The two calls have their own surroundings. -/
def sign (privateKey : Except PyErr P.PrivateKey) (env env' : Env) (correction : PyValue) :
    Except PyErr PyObject := do
  let priv ← privateKey
  let agentId ← correction.getItem "agent_id" >>= asObject
  let subjectRef ← correction.getItem "subject_ref" >>= asObject
  let metadata ← metadataOf correction
  let metadata ← metadata.setItem "subject_ref" subjectRef.val >>= asObject
  let failing ← metadata.val.getMethod "failing_scorers" .none >>= asObject
  let action ← (Call.record env (sampleRecord agentId subjectRef failing)).object priv
  let detail ← correction.getItem "detail" >>= asObject
  let trigger ← correction.getItem "trigger" >>= asObject
  let fixType ← correction.getItem "fix_type" >>= asObject
  (Call.retract env' (sampleRetract action agentId detail trigger fixType metadata)).object priv

/-- The calls so far, with their exceptions and receipts. -/
abbrev Calls := List (Called PyErr PyObject)

/-- `CorrlogSigner(key)`.  What a call takes from its surroundings may depend on all calls
before it. -/
def corrlogSigner (L : SeedKeys) (toKey : L.PrivateKey → P.PrivateKey) (key : PyStr)
    (env env' : Calls → Env) : Signer PyErr PyObject where
  ends calls correction :=
    (sign ((loadPrivateKey L key).map toKey) (env calls) (env' calls) correction).map some

/-- The file after the calls. -/
def written (file : Option Bytes) (calls : Calls) : Option Bytes :=
  calls.foldl (fun file c =>
    match c with
    | .append r (.ok _) => (append file r.val).toOption.getD file
    | _ => file) file

/-- `JsonlSink(path)`, over a file. -/
def jsonlSink (path : PyStr) (file : Option Bytes) : Sink PyErr PyObject where
  ends calls r := (append (written file calls) r.val).map fun _ => ()
  path := .str path

/-! ## What is due -/

/-- Nothing keeps the receipt of the sample from being signed. -/
structure Sound (agent : PyStr) (data : SampleEnd) : Prop where
  agent : noSurrogates agent = true
  evalId : noSurrogates data.evalId = true
  runId : noSurrogates data.runId = true
  sampleId : noSurrogates data.sampleId = true
  scorers : ∀ s ∈ data.failing, noSurrogates s.1 = true
  epoch : Exact data.epoch

instance (n : ℤ) : Decidable (Exact n) := inferInstanceAs (Decidable (_ = _))

instance (agent : PyStr) (data : SampleEnd) : Decidable (Sound agent data) :=
  decidable_of_iff (noSurrogates agent = true ∧ noSurrogates data.evalId = true ∧
    noSurrogates data.runId = true ∧ noSurrogates data.sampleId = true ∧
      (∀ s ∈ data.failing, noSurrogates s.1 = true) ∧ Exact data.epoch)
    ⟨fun ⟨h1, h2, h3, h4, h5, h6⟩ => ⟨h1, h2, h3, h4, h5, h6⟩,
      fun h => ⟨h.agent, h.evalId, h.runId, h.sampleId, h.scorers, h.epoch⟩⟩

/-- The receipt that an event is due after the events before it: for a sample with a
score of `INCORRECT`, if it can be signed, with the agent to blame. -/
def dueAt (before : List Event) : Event → List (PyStr × SampleEnd)
  | .taskStart _ => []
  | .sampleEnd data =>
      if data.failing ≠ [] ∧ Sound (blamed before data) data then [(blamed before data, data)]
      else []

/-- The receipts that are due after all events. -/
def due (before : List Event) : List Event → List (PyStr × SampleEnd)
  | [] => []
  | e :: events => dueAt before e ++ due (before ++ [e]) events

/-- Each event adds its own receipts. -/
theorem due_concat (before events : List Event) (e : Event) :
    due before (events ++ [e]) = due before events ++ dueAt (before ++ events) e := by
  induction events generalizing before with
  | nil => simp [due]
  | cons e' events ih => simp [due, ih]

/-- The metadata of a payload. -/
def payloadMetadata (data : SampleEnd) : List (String × PyValue) :=
  [("source", .str (lit "inspect_ai")), ("severity", .str (lit "incorrect")),
    ("failing_scorers", .dict (strItems data.failing)), ("eval_id", .str data.evalId),
    ("run_id", .str data.runId), ("sample_id", .str data.sampleId), ("epoch", .int data.epoch)]

/-- The metadata of a receipt. -/
def receiptMetadata (data : SampleEnd) : PyValue :=
  dictOf (payloadMetadata data ++ [("subject_ref", .str data.subjectRef)])

/-- The receipt of a sample. -/
structure ReceiptOf (P : Platform) (k : P.PrivateKey) (agent : PyStr) (data : SampleEnd)
    (r : PyValue) : Prop where
  verified : verify P r (some (P.publicKey k)) = true
  agent : entry r "agent" "id" = .ok (.str agent)
  principal : entry r "principal" "id" = .ok (.str (lit "inspect-operator"))
  reason : r.getItem "reason" = .ok (.str data.detail)
  trigger : r.getItem "trigger" = .ok (.str (lit "check_failed"))
  fixType : entry r "fix" "type" = .ok (.str (lit "other"))
  metadata : r.getItem "metadata" = .ok (receiptMetadata data)
  unrooted : linked P none r ≠ .ok true

/-! ## When a sample is signed -/

theorem failing_wf (data : SampleEnd) : (PyValue.dict (strItems data.failing)).WF := by
  refine (PyValue.wf_dict _).mpr ⟨?_, fun kv hkv => ?_⟩
  · rw [keys_strItems]
    refine List.Nodup.map (fun s t h => PyKey.str.inj h) ?_
    rw [SampleEnd.failing]
    cases hs : data.scores with
    | none => exact List.nodup_nil
    | some scores =>
        exact (data.distinct scores hs).sublist (List.filter_sublist.map Prod.fst)
  · obtain ⟨s, hs, rfl⟩ := List.mem_map.mp hkv
    rw [(mem_failing.mp hs).2]
    exact PyValue.wf_str _

/-- The keys of the metadata are distinct. -/
theorem receiptMetadata_wf (data : SampleEnd) : (receiptMetadata data).WF := by
  refine dictOf_wf (by simp [payloadMetadata]) ?_
  simp only [payloadMetadata, List.cons_append, List.nil_append, List.forall_mem_cons,
    List.not_mem_nil, false_implies, implies_true, and_true, PyValue.wf_str, true_and, failing_wf]
  rfl

/-- The payload of a sample as a literal dict. -/
theorem correction_eq {data : SampleEnd} {modelByEval : Items} {agent : PyStr}
    (hagent : data.agentId modelByEval = .str agent) :
    data.correction modelByEval = dictOf [("trigger", .str trigger), ("fix_type", .str fixType),
      ("agent_id", .str agent), ("subject_ref", .str data.subjectRef), ("detail", .str data.detail),
      ("metadata", dictOf (payloadMetadata data))] := by
  rw [SampleEnd.correction, buildCorrection, hagent]
  rfl

section

variable {kvs : List (String × PyValue)} {k : String} {v : PyValue}

theorem getItem_asObject (hwf : v.WF) (h : kvs.lookup k = some v) :
    ((dictOf kvs).getItem k >>= asObject) = .ok ⟨v, hwf⟩ := by
  rw [getItem_dictOf h]
  exact asObject_eq_ok hwf

/-- The metadata of such a payload are a dict that is not empty. -/
theorem metadataOf_dictOf {inner : List (String × PyValue)}
    (h : kvs.lookup "metadata" = some (dictOf inner)) (hne : inner ≠ []) :
    metadataOf (dictOf kvs) = .ok (dictOf inner) := by
  have hget : (dictOf kvs).getMethod "metadata" .none = .ok (dictOf inner) :=
    PyValue.getMethod_eq_ok.mpr ⟨_, rfl, by rw [getStr_members, h]; rfl⟩
  refine bind_eq_ok.mpr ⟨_, hget, ?_⟩
  cases inner with
  | nil => exact absurd rfl hne
  | cons kv inner => rfl

end

/-- What the signer reads from the payload of a sample. -/
theorem sign_correction {privateKey : P.PrivateKey} {env env' : Env} {data : SampleEnd}
    {modelByEval : Items} {agent : PyStr} (hagent : data.agentId modelByEval = .str agent) :
    sign (.ok privateKey) env env' (data.correction modelByEval) =
      (Call.record env (sampleRecord (strObject agent) (strObject data.subjectRef)
          ⟨_, failing_wf data⟩)).object privateKey >>= fun action =>
        (Call.retract env' (sampleRetract action (strObject agent) (strObject data.detail)
          (strObject trigger) (strObject fixType) ⟨_, receiptMetadata_wf data⟩)).object privateKey := by
  have hbind {α β : Type} (a : α) (f : α → Except PyErr β) :
      ((.ok a : Except PyErr α) >>= f) = f a := rfl
  have hne : payloadMetadata data ≠ [] := List.cons_ne_nil _ _
  have hset : ((dictOf (payloadMetadata data)).setItem "subject_ref" (.str data.subjectRef) >>=
      asObject) = .ok ⟨receiptMetadata data, receiptMetadata_wf data⟩ := by
    rw [setItem_dictOf, put_append (by simp [payloadMetadata])]
    exact asObject_eq_ok (receiptMetadata_wf data)
  have hfailing : ((receiptMetadata data).getMethod "failing_scorers" .none >>= asObject) =
      .ok ⟨_, failing_wf data⟩ :=
    bind_eq_ok.mpr ⟨_, PyValue.getMethod_eq_ok.mpr ⟨_, rfl, by rw [getStr_members]; rfl⟩,
      asObject_eq_ok (failing_wf data)⟩
  rw [correction_eq hagent, sign, hbind, getItem_asObject (PyValue.wf_str agent) rfl, hbind,
    getItem_asObject (PyValue.wf_str data.subjectRef) rfl, hbind,
    metadataOf_dictOf rfl hne, hbind, hset, hbind, hfailing, hbind]
  refine congrArg (_ >>= ·) (funext fun action => ?_)
  rw [getItem_asObject (PyValue.wf_str data.detail) rfl, hbind,
    getItem_asObject (PyValue.wf_str Inspect.trigger) rfl, hbind,
    getItem_asObject (PyValue.wf_str Inspect.fixType) rfl, hbind]
  rfl

/-- The failing scorers can be signed if their names can. -/
theorem signable_failing {data : SampleEnd} :
    Signable (.dict (strItems data.failing)) ↔ ∀ s ∈ data.failing, noSurrogates s.1 = true := by
  obtain ⟨hnd, _⟩ := (PyValue.wf_dict _).mp (failing_wf data)
  rw [signable_dict (failing_wf data)]
  constructor
  · intro h s hs
    have hmem : (PyKey.str s.1, s.2) ∈ strItems data.failing := List.mem_map_of_mem hs
    exact (h _ _ (getKey_of_mem hnd hmem)).1
  · intro h k v hv
    obtain ⟨s, hs, hkv⟩ := List.mem_map.mp (mem_of_getKey hv)
    cases hkv
    rw [(mem_failing.mp hs).2]
    exact ⟨h s hs, signable_str.mpr (noSurrogates_lit "I")⟩

theorem noSurrogates_subjectRef {data : SampleEnd} : noSurrogates data.subjectRef = true ↔
    noSurrogates data.evalId = true ∧ noSurrogates data.sampleId = true := by
  simp [SampleEnd.subjectRef]

/-- The metadata can be signed if the texts in them and the epoch can. -/
theorem signable_receiptMetadata {data : SampleEnd} :
    Signable (receiptMetadata data) ↔
      (∀ s ∈ data.failing, noSurrogates s.1 = true) ∧ noSurrogates data.evalId = true ∧
        noSurrogates data.runId = true ∧ noSurrogates data.sampleId = true ∧ Exact data.epoch := by
  rw [receiptMetadata, signable_dictOf (receiptMetadata_wf data)]
  simp [payloadMetadata, signable_str, signable_failing, signable_int, noSurrogates_subjectRef]
  tauto

/-- The detail is made of texts that are signed elsewhere. -/
theorem noSurrogates_detail {data : SampleEnd} (h : noSurrogates data.sampleId = true)
    (hs : ∀ s ∈ data.failing, noSurrogates s.1 = true) : noSurrogates data.detail = true := by
  have hnames : ∀ name ∈ (sortedBy strLe data.failing).map Prod.fst, noSurrogates name = true := by
    simpa using fun name v hmem => hs (name, v) ((sortedBy_perm strLe _).mem_iff.mp hmem)
  simp [SampleEnd.detail, h, (noSurrogates_intercalate (noSurrogates_lit ", ")).mpr hnames]

section

variable {env env' : Env} {agent : PyStr} {data : SampleEnd}

/-- What the two calls have in common. -/
theorem sampleCommon {hashes : List String} {metadata : PyObject} (hagent : IsName agent)
    (hmeta : isNone metadata.val = false →
      ∃ items, metadata.val = .dict items ∧ SignableBut hashes items) :
    CommonDomain P hashes {
      agentId := strObject agent
      principalId := .str "inspect-operator"
      principalType := .str "organization"
      metadata := metadata } where
  agentId := ⟨_, rfl, hagent⟩
  principalId := ⟨_, rfl, List.cons_ne_nil _ _, noSurrogates_lit _⟩
  principalType := ⟨_, rfl, noSurrogates_lit _⟩
  kid := nofun
  metadata := hmeta
  correctionId := nofun
  timestamp := nofun

/-- The record of a sample is in the domain of `record`. -/
theorem sampleRecord_domain (hne : agent ≠ []) :
    RecordDomain P (sampleRecord (strObject agent) (strObject data.subjectRef)
        ⟨_, failing_wf data⟩) ↔
      noSurrogates agent = true ∧ noSurrogates data.subjectRef = true ∧
        ∀ s ∈ data.failing, noSurrogates s.1 = true := by
  have hhash : Hashable P (.dict (strItems data.failing)) ↔
      ∀ s ∈ data.failing, noSurrogates s.1 = true := by
    rw [← signable_failing, Hashable]
    rfl
  rw [← hhash]
  constructor
  · intro h
    have hagent : IsName agent := isNameValue_str.mp h.common.agentId
    obtain ⟨_, he, hsubject⟩ := h.actionTarget (truthy_str (List.cons_ne_nil _ _))
    cases he
    exact ⟨hagent.2, hsubject, h.actionResult rfl⟩
  · rintro ⟨hagent, hsubject, hresult⟩
    exact {
      common := sampleCommon ⟨hne, hagent⟩ fun hnone => by cases hnone
      agentName := fun ht => by cases ht
      actionType := ⟨_, rfl, List.cons_ne_nil _ _, noSurrogates_lit _⟩
      actionTarget := fun _ => ⟨_, rfl, hsubject⟩
      actionArgs := fun hnone => by cases hnone
      actionResult := fun _ => hresult }

/-- The receipt is in the domain of `retract`. -/
theorem sampleRetract_domain {action : PyObject} (hne : agent ≠ [])
    (haction : Retractable action.val) :
    RetractDomain P (sampleRetract action (strObject agent) (strObject data.detail)
        (strObject trigger) (strObject fixType) ⟨_, receiptMetadata_wf data⟩) ↔
      noSurrogates agent = true ∧ noSurrogates data.detail = true ∧
        Signable (receiptMetadata data) := by
  have hmeta := signable_dict_iff (receiptMetadata_wf data)
  constructor
  · intro h
    have hagent : IsName agent := isNameValue_str.mp h.common.agentId
    have hdetail : IsName data.detail := isNameValue_str.mp h.reason
    obtain ⟨_, he, hitems⟩ := h.common.metadata rfl
    cases he
    exact ⟨hagent.2, hdetail.2, hmeta.mpr hitems⟩
  · rintro ⟨hagent, hdetail, hsigned⟩
    exact {
      common := sampleCommon ⟨hne, hagent⟩ fun _ => ⟨_, rfl, hmeta.mp hsigned⟩
      prior := haction
      reason := ⟨_, rfl, List.cons_ne_nil _ _, hdetail⟩
      trigger := ⟨"check_failed", by decide, rfl⟩
      fixType := ⟨"other", by decide, rfl⟩
      fixNote := fun _ => ⟨_, rfl, hdetail⟩
      correctedContent := nofun
      source := .inl ⟨rfl, rfl⟩ }

/-- A sample is signed if it is sound. -/
theorem sign_ok_iff {privateKey : P.PrivateKey} {modelByEval : Items} (henv : env.Proper P)
    (henv' : env'.Proper P) (hsha : ∀ data, (P.sha256 data).length = 32)
    (hagent : data.agentId modelByEval = .str agent) (hne : agent ≠ []) :
    (∃ r, sign (.ok privateKey) env env' (data.correction modelByEval) = .ok r) ↔
      Sound agent data := by
  rw [sign_correction hagent]
  constructor
  · rintro ⟨r, hr⟩
    obtain ⟨action, haction, hr⟩ := bind_eq_ok.mp hr
    have hrecord := Call.object_eq_ok.mp haction
    have hdomain := (record_ok_iff henv).mp ⟨_, hrecord⟩
    have hretract := (retract_ok_iff henv' hsha).mp ⟨_, Call.object_eq_ok.mp hr⟩
    obtain ⟨h1, -, hscorers⟩ := (sampleRecord_domain hne).mp hdomain
    obtain ⟨-, -, hmeta⟩ := (sampleRetract_domain hne (retractable_of_record hrecord)).mp hretract
    obtain ⟨-, h2, h3, h4, h5⟩ := signable_receiptMetadata.mp hmeta
    exact ⟨h1, h2, h3, h4, hscorers, h5⟩
  · intro h
    have hsubject := noSurrogates_subjectRef.mpr ⟨h.evalId, h.sampleId⟩
    obtain ⟨action, haction⟩ := (Call.exists_object (c := .record env _)).mpr
      ((record_ok_iff henv).mpr ((sampleRecord_domain hne).mpr ⟨h.agent, hsubject, h.scorers⟩))
    have hrecord := Call.object_eq_ok.mp haction
    have hprior : Retractable action.val := retractable_of_record hrecord
    have hmeta := signable_receiptMetadata.mpr ⟨h.scorers, h.evalId, h.runId, h.sampleId, h.epoch⟩
    have hdetail := noSurrogates_detail h.sampleId h.scorers
    obtain ⟨r, hr⟩ := (Call.exists_object (c := .retract env' _)).mpr ((retract_ok_iff henv' hsha).mpr
      ((sampleRetract_domain hne hprior).mpr ⟨h.agent, hdetail, hmeta⟩))
    exact ⟨r, bind_eq_ok.mpr ⟨action, haction, hr⟩⟩

/-- What the signer returns. -/
theorem receiptOf_sign {privateKey : P.PrivateKey} {modelByEval : Items} {r : PyObject}
    (hsign : ∀ data, P.verify (P.publicKey privateKey) (P.sign privateKey data) data = true)
    (hagent : data.agentId modelByEval = .str agent)
    (h : sign (.ok privateKey) env env' (data.correction modelByEval) = .ok r) :
    ReceiptOf P privateKey agent data r.val ∧ r.val.isDict = true ∧
      ∃ b, canonicalJson r.val = .ok b := by
  rw [sign_correction hagent] at h
  obtain ⟨action, _, h⟩ := bind_eq_ok.mp h
  have hr := Call.object_eq_ok.mp h
  obtain ⟨sup, _, hret⟩ := retract_returned hr
  have he := retract_entries hr
  refine ⟨?_, Call.canonical hr⟩
  exact {
    verified := hret.verify hsign
    agent := he.agentId
    principal := by
      rw [entry, he.principal]
      rfl
    reason := he.reason
    trigger := he.trigger
    fixType := he.fixType
    metadata := he.metadata
    unrooted := by
      obtain ⟨items, _, _, _, _, _, hitems, _, hsup, _⟩ := hret.verified hsign
      rw [hitems, Ne, linked_none, hsup]
      intro hnone
      cases hnone }

end

/-! ## What is read back -/

/-- There is no tuple in the metadata. -/
theorem listed_receiptMetadata (data : SampleEnd) :
    listed (receiptMetadata data) = receiptMetadata data := by
  have hfailing : (data.failing.map fun s => (s.1, listed s.2)) = data.failing := by
    refine (List.map_congr_left fun s hs => ?_).trans (List.map_id _)
    obtain ⟨name, v⟩ := s
    obtain rfl : v = .str incorrect := (mem_failing.mp hs).2
    rfl
  have hdict : listed (.dict (strItems data.failing)) = .dict (strItems data.failing) := by
    rw [listed_strItems, hfailing]
  rw [receiptMetadata, dictOf, members, listed_strItems, payloadMetadata]
  simp only [List.cons_append, List.nil_append, List.map_cons, List.map_nil, hdict]
  rfl

/-- The receipt says the same after it has been read back. -/
theorem ReceiptOf.read {k : P.PrivateKey} {agent : PyStr} {data : SampleEnd} {r : PyObject}
    (h : ReceiptOf P k agent data r.val) {b : Bytes} (hb : canonicalJson r.val = .ok b) :
    ReceiptOf P k agent data (listed r.val) where
  verified := ((alike_listed r.wf hb).verify_eq _).trans h.verified
  agent := entry_listed h.agent
  principal := entry_listed h.principal
  reason := getItem_listed h.reason
  trigger := getItem_listed h.trigger
  fixType := entry_listed h.fixType
  metadata := (getItem_listed h.metadata).trans (congrArg Except.ok (listed_receiptMetadata data))
  unrooted hnone := by
    have halike := (alike_listed r.wf hb).symm
    have hver := ((alike_listed r.wf hb).verify_eq _).trans h.verified
    exact h.unrooted (linked_none_of_same P hver halike.left_wf halike.right_wf
      (halike.same P hver) hnone)

/-- No chain starts with a receipt. -/
theorem ReceiptOf.not_first {k : P.PrivateKey} {agent : PyStr} {data : SampleEnd} {r : PyValue}
    (h : ReceiptOf P k agent data r) (rest : List PyValue) (publicKey : Option P.PublicKey)
    (checkpoint : PyValue) : verifyChain P (.list (r :: rest)) publicKey checkpoint = false := by
  rw [← Bool.not_eq_true, verifyChain_iff]
  rintro ⟨hhistory, _⟩
  exact h.unrooted (hhistory.first _ rfl)

/-! ## The file -/

section

variable {L : SeedKeys} {toKey : L.PrivateKey → P.PrivateKey} {key path : PyStr} {k : P.PrivateKey}
  {env env' : Calls → Env} {file : Option Bytes}

/-- The file after some calls and then others. -/
theorem written_append (calls calls' : Calls) :
    written file (calls ++ calls') = written (written file calls) calls' :=
  List.foldl_append

/-- The model that is blamed has a name, or is called unknown. -/
theorem blamed_ne_nil (events : List Event) (data : SampleEnd) : blamed events data ≠ [] := by
  rw [blamed]
  cases latestModel data.evalId events with
  | none => exact List.cons_ne_nil _ _
  | some model =>
      cases model with
      | nil => exact List.cons_ne_nil _ _
      | cons c model => exact List.cons_ne_nil _ _

variable (hkey : (loadPrivateKey L key).map toKey = .ok k)
  (hsign : ∀ data, P.verify (P.publicKey k) (P.sign k data) data = true)
  (hsha : ∀ data, (P.sha256 data).length = 32)
  (henv : ∀ calls, (env calls).Proper P) (henv' : ∀ calls, (env' calls).Proper P)

include hkey hsign hsha henv henv'

/-- An event adds the receipt that is due. -/
theorem runFrom_due {w : World PyErr PyObject} {events : List Event} {before : List PyValue} {n : ℕ}
    (hsigner : w.hook.signer = some (corrlogSigner L toKey key env env'))
    (hsink : w.hook.sink = some (jsonlSink path file))
    (hmodels : ∀ id, getKey (.str id) w.hook.modelByEval = (latestModel id events).map .str)
    (hall : all (written file w.calls) = .ok (before, n)) (e : Event) :
    ∃ calls hook receipts, runFrom (handle e) w = (.ok (), ⟨hook, w.calls ++ calls⟩) ∧
      List.Forall₂ (fun d => ReceiptOf P k d.1 d.2) (dueAt events e) receipts ∧
      all (written file (w.calls ++ calls)) = .ok (before ++ receipts, n) := by
  have hnone : before ++ [] = before := List.append_nil before
  cases e with
  | taskStart data =>
      refine ⟨[], { w.hook with
        modelByEval := setKey (.str data.evalId) (.str data.model) w.hook.modelByEval }, [],
        ?_, List.Forall₂.nil, ?_⟩
      · rw [List.append_nil]
        rfl
      · rw [List.append_nil, hall, hnone]
  | sampleEnd data =>
      rw [dueAt]
      by_cases hf : data.failing = []
      · refine ⟨[], w.hook, [], ?_, ?_, ?_⟩
        · simp [handle, onSampleEnd, hf]
        · rw [if_neg fun h => h.1 hf]
          exact List.Forall₂.nil
        · rw [List.append_nil, hall, hnone]
      have hne : data.failing.isEmpty = false := by simp [hf]
      obtain ⟨c, hc⟩ : ∃ c, c = data.correction w.hook.modelByEval := ⟨_, rfl⟩
      have hends : (corrlogSigner L toKey key env env').ends w.calls c =
          (sign (.ok k) (env w.calls) (env' w.calls) c).map some := by
        rw [← hkey]
        rfl
      have hagent : data.agentId w.hook.modelByEval = .str (blamed events data) :=
        agentId_eq hmodels
      have hsound : (∃ r, sign (.ok k) (env w.calls) (env' w.calls)
          (data.correction w.hook.modelByEval) = .ok r) ↔ Sound (blamed events data) data :=
        sign_ok_iff (henv w.calls) (henv' w.calls) hsha hagent (blamed_ne_nil events data)
      rw [← hc] at hsound
      cases hs : sign (.ok k) (env w.calls) (env' w.calls) c with
      | error err =>
          rw [hs, Except.map] at hends
          have hunsound : ¬ Sound (blamed events data) data := fun h => by
            obtain ⟨r, hr⟩ := hsound.mpr h
            cases hs.symm.trans hr
          refine ⟨[.sign c (.error err), w.hook.logCall .signing []], w.hook.warn .signing, [],
            ?_, ?_, ?_⟩
          · simp [handle, onSampleEnd, hne, hsigner, hends, ← hc, World.after]
          · rw [if_neg fun h => hunsound h.2]
            exact .nil
          · obtain ⟨level, message, hlog⟩ := w.hook.logCall_eq .signing []
            rw [written_append, hlog, hnone]
            exact hall
      | ok r =>
          have hreceipt := receiptOf_sign hsign hagent (hc ▸ hs)
          obtain ⟨hreceipt, hd, b, hb⟩ := hreceipt
          obtain ⟨file', happ, hall'⟩ := all_append_signed hall r.wf hd hb
          rw [hs, Except.map] at hends
          have happends : (jsonlSink path file).ends (w.calls ++ [.sign c (.ok (some r))]) r =
              .ok () := by
            show (append (written file (w.calls ++ [.sign c (.ok (some r))])) r.val).map _ = _
            rw [written_append]
            exact congrArg (Except.map _) happ
          refine ⟨[.sign c (.ok (some r)), .append r (.ok ())], w.hook, [listed r.val], ?_, ?_, ?_⟩
          · simp [handle, onSampleEnd, hne, hsigner, hsink, hends, happends, ← hc, World.after]
          · rw [if_pos ⟨hf, hsound.mp ⟨r, hs⟩⟩]
            exact .cons (hreceipt.read hb) .nil
          · have hfile : written (written file w.calls) [.sign c (.ok (some r)),
                .append r (.ok ())] = file' := by
              show (append (written file w.calls) r.val).toOption.getD _ = _
              rw [happ]
              rfl
            rw [written_append, hfile, hall']

omit hkey hsign hsha henv henv' in
/-- What the file holds after the events of a log. -/
structure Filed (L : SeedKeys) (toKey : L.PrivateKey → P.PrivateKey) (key path : PyStr)
    (k : P.PrivateKey) (env env' : Calls → Env) (file : Option Bytes) (before : List PyValue) (n : ℕ)
    (log : List (Handled PyErr PyObject)) (w : World PyErr PyObject) : Prop where
  inv : Inv (corrlogSigner L toKey key env env') (jsonlSink path file) log w
  calls : w.calls = log.flatMap Handled.calls
  file : ∃ receipts,
    List.Forall₂ (fun d => ReceiptOf P k d.1 d.2) (due [] (log.map Handled.event)) receipts ∧
      all (written file w.calls) = .ok (before ++ receipts, n)

/-- One event adds its receipts to the file. -/
theorem Filed.step {before : List PyValue} {n : ℕ} {log : List (Handled PyErr PyObject)}
    {w w' : World PyErr PyObject} {x : Handled PyErr PyObject}
    (h : Filed L toKey key path k env env' file before n log w)
    (hs : (system (corrlogSigner L toKey key env env') (jsonlSink path file)).step w x w') :
    Filed L toKey key path k env env' file before n (log ++ [x]) w' := by
  obtain ⟨receipts, hreceipts, hall⟩ := h.file
  obtain ⟨calls, hook, added, hrun, hadded, hall'⟩ := runFrom_due hkey hsign hsha henv henv'
    h.inv.signer h.inv.sink h.inv.models hall x.event
  have hinv := h.inv.step hs
  obtain ⟨hended, hcalls⟩ := hs
  rw [hrun, Prod.mk.injEq] at hended
  obtain ⟨-, rfl⟩ := hended
  rw [List.drop_left] at hcalls
  refine ⟨hinv, ?_, receipts ++ added, ?_, ?_⟩
  · rw [List.flatMap_append, List.flatMap_singleton, ← h.calls, hcalls]
  · rw [List.map_append, List.map_singleton, due_concat, List.nil_append]
    exact List.rel_append hreceipts hadded
  · rw [hall', List.append_assoc]

/-- Whatever the events: the file holds what was there, and then one receipt for each
sample that is due one, in their order.  Each says what it should and verifies as it is
read, and no chain starts with it. -/
theorem receipts_file {before : List PyValue} {n : ℕ} (hfile : all file = .ok (before, n))
    (events : List Event) :
    let log := handled (start (some (corrlogSigner L toKey key env env'))
      (some (jsonlSink path file))) events
    ∃ receipts, all (written file (log.flatMap Handled.calls)) = .ok (before ++ receipts, n) ∧
      List.Forall₂ (fun d => ReceiptOf P k d.1 d.2) (due [] events) receipts ∧
      ∀ r ∈ receipts, ∀ rest publicKey checkpoint,
        verifyChain P (.list (r :: rest)) publicKey checkpoint = false := by
  intro log
  obtain ⟨w, hsteps⟩ := steps_handled (corrlogSigner L toKey key env env') (jsonlSink path file)
    (start (some (corrlogSigner L toKey key env env')) (some (jsonlSink path file))) events
  have hrun : Run (system (corrlogSigner L toKey key env env') (jsonlSink path file)) log w :=
    ⟨_, rfl, hsteps⟩
  have hfiled : Filed L toKey key path k env env' file before n log w := by
    refine hrun.invariant (fun s hs => ?_) fun log s x t h hs =>
      h.step hkey hsign hsha henv henv' hs
    subst hs
    exact ⟨Inv.start, rfl, [], .nil, by rw [List.append_nil]; exact hfile⟩
  obtain ⟨receipts, hreceipts, hall⟩ := hfiled.file
  rw [map_event_handled] at hreceipts
  refine ⟨receipts, hfiled.calls ▸ hall, hreceipts, fun r hr => ?_⟩
  obtain ⟨_, _, h⟩ := PyValue.exists_left_of_forall₂ hreceipts hr
  exact h.not_first

end

/-! ## A sample -/

namespace Sample

open Adapters.Sample
open Corrlog.Vector (text digest signature bytes)

/-- The seed of the key of the vectors. -/
def key : PyStr := lit "f5wrpOiPgn1hYEVQdgWFPtc7gJPx77yI6xpurPpm7yY"

/-- The sample's key can be loaded. -/
theorem exists_key : ∃ k, loadPrivateKey rawKeys key = .ok k := by
  have hlen : (decodeSeed (unprefixed (stripStr key))).length = 32 := by decide +kernel
  obtain ⟨k, hk, _⟩ := loadPrivateKey_ok (L := rawKeys) rfl hlen
  exact ⟨k, hk⟩

/-- A sample with one scorer that failed it. -/
def data : SampleEnd where
  evalId := lit "eval-1"
  runId := lit "run-1"
  sampleId := lit "7"
  epoch := 1
  scores := some [(lit "match", .str incorrect)]
  distinct := fun _ hs => Option.some.inj hs ▸ List.nodup_singleton _

/-- The eval starts and the sample ends. -/
def events : List Event := [.taskStart ⟨lit "eval-1", lit "openai/gpt-4o"⟩, .sampleEnd data]

/-- The model, with the key of the operator. -/
def agent : PyValue := dictOf [("id", text "openai/gpt-4o"), ("publicKey", text Vector.key)]

/-- Who runs the eval. -/
def operator : PyValue := dictOf [("id", text "inspect-operator"), ("type", text "organization")]

/-- The record of the sample, with a signature to fill in. -/
def action (sig : String) : PyValue :=
  dictOf [("correctionId", text "00000000-0000-4000-8000-000000000001"), ("agent", agent),
    ("principal", operator),
    ("action", dictOf [("type", text "eval.sample"), ("target", text "inspect:eval-1/7")]),
    ("reason", text ""), ("trigger", text "supersede"), ("fix", dictOf [("type", text "noop")]),
    ("timestamp", text "2026-08-25T00:00:00+00:00"),
    ("metadata",
      dictOf [("outputHash", digest "XG63Rd-HIW7o8vM1M7DLRjRqVubnEBzhNL6Egr3i5FA")]),
    ("signature", signature sig)]

/-- Its receipt, with a signature to fill in. -/
def receipt (sig : String) : PyValue :=
  dictOf [("correctionId", text "00000000-0000-4000-8000-000000000002"), ("agent", agent),
    ("principal", operator),
    ("supersedes", dictOf [("receiptId", text "00000000-0000-4000-8000-000000000001"),
      ("digest", digest "psmr684C3oo3c56zqrW9Gp2-NOmEgAzQ-4xMQbQwiJk")]),
    ("action", dictOf [("type", text "eval.sample")]),
    ("reason", text "Inspect sample 7 scored INCORRECT on match"),
    ("trigger", text "check_failed"),
    ("fix", dictOf [("type", text "other"),
      ("note", text "Inspect sample 7 scored INCORRECT on match")]),
    ("timestamp", text "2026-08-25T00:01:00+00:00"), ("metadata", receiptMetadata data),
    ("signature", signature sig)]

/-- The signature of the record. -/
def actionSig : String :=
  "u4N0pVlXiMoP-Epfpr2PBXP2cunhSJkh8Y8vjYUa51U8IMu4_2viIHbWNIpRpfV74AJuJHazmFt6zVFWmZtaBQ"

/-- The signature of the receipt. -/
def receiptSig : String :=
  "m_1RWhBINMo5bsCTG5BTMH47nILhY2GKlMwoQstqUQ6nOjTTnn7j-JzRHEd5nVoxxM9rh5VZPX92Cw4uRUhmCg"

/-- The platform with these two signatures. -/
def platform : Platform :=
  tablePlatform [(bytes (action ""), actionSig), (bytes (receipt ""), receiptSig)]
    [(bytes (.dict (strItems data.failing)), "XG63Rd-HIW7o8vM1M7DLRjRqVubnEBzhNL6Egr3i5FA"),
      (bytes (action actionSig), "psmr684C3oo3c56zqrW9Gp2-NOmEgAzQ-4xMQbQwiJk")]

/-- The receipt of the sample is the one whose signature is in the table. -/
example : ((sign (P := platform) (.ok ()) env env'
    (data.correction [(.str (lit "eval-1"), text "openai/gpt-4o")])).toOption.map
      fun r => bytes r.val) = some (bytes (receipt receiptSig)) := by
  decide +kernel

/-- One receipt is due. -/
theorem due_events : due [] events = [(lit "openai/gpt-4o", data)] := by
  have hsound : data.failing ≠ [] ∧ Sound (lit "openai/gpt-4o") data := by decide +kernel
  have hblamed : blamed [.taskStart ⟨lit "eval-1", lit "openai/gpt-4o"⟩] data =
      lit "openai/gpt-4o" := rfl
  simp [events, due, dueAt, hblamed, hsound]

end Sample

/-- A task and a sample that fails give a receipt. -/
theorem receipts_file_sample : ∃ r,
    all (written none ((handled (start
      (some (corrlogSigner (P := Sample.platform) rawKeys (fun _ => ()) Sample.key
        (fun _ => Adapters.Sample.env) fun _ => Adapters.Sample.env'))
      (some (jsonlSink (lit "receipts.jsonl") none))) Sample.events).flatMap Handled.calls)) =
        .ok ([r], 0) ∧
      ReceiptOf Sample.platform () (lit "openai/gpt-4o") Sample.data r := by
  obtain ⟨k, hk⟩ := Sample.exists_key
  have hkey : (loadPrivateKey rawKeys Sample.key).map (fun _ => ()) = .ok () := by
    rw [hk]
    rfl
  have hempty : all none = .ok ([], 0) := rfl
  obtain ⟨receipts, hall, hreceipts, _⟩ := @receipts_file Sample.platform rawKeys (fun _ => ())
    Sample.key (lit "receipts.jsonl") () _ _ none hkey
    Adapters.Sample.tablePlatform_verify Adapters.Sample.tablePlatform_sha256
    (fun _ => Adapters.Sample.env_proper_table) (fun _ => Adapters.Sample.env'_proper_table)
    [] 0 hempty Sample.events
  rw [Sample.due_events] at hreceipts
  obtain ⟨r, rest, hr, hrest, rfl⟩ := List.forall₂_cons_left_iff.mp hreceipts
  cases hrest
  exact ⟨r, hall, hr⟩

end Corrlog.Inspect
