import Corrlog.Core.Constructors
import Corrlog.Machine.Code
import Corrlog.Machine.Run
import Corrlog.Python.Sort

/-!
# The Inspect hook

`CorrlogReceiptHook` is told when a task starts and when a sample ends.  For a
sample with a score of `INCORRECT` it builds a correction payload, has its signer
sign it and its sink append what the signer returns; both may raise, which is
logged and goes no further.

The handlers have no `await`, so each runs to its end before the next starts and
the events of several evals are one sequence.  A signer and a sink are what each
call of theirs comes to, which may depend on all that has been called before.

Every call to the signer, the sink and the logger is noted, and `hook_runs` says
what the calls of any sequence of events are.
-/

namespace Corrlog.Inspect

open Python
open Machine

/-! ## The payload -/

/-- `INCORRECT`. -/
def incorrect : PyStr := lit "I"

/-- `TRIGGER`. -/
def trigger : PyStr := lit "check_failed"

/-- `FIX_TYPE`. -/
def fixType : PyStr := lit "other"

/-- `{**d, **context}`. -/
def updated (d context : Items) : Items := context.foldl (fun d kv => setKey kv.1 kv.2 d) d

/-- `build_correction`. -/
def buildCorrection (agentId : PyValue) (subjectRef detail : PyStr)
    (failingScorers context : Items) : PyValue :=
  dictOf [
    ("trigger", .str trigger),
    ("fix_type", .str fixType),
    ("agent_id", agentId),
    ("subject_ref", .str subjectRef),
    ("detail", .str detail),
    ("metadata", .dict (updated
      (members [
        ("source", .str (lit "inspect_ai")),
        ("severity", .str (lit "incorrect")),
        ("failing_scorers", .dict failingScorers)])
      context))]

/-! ## Events -/

/-- A `TaskStart`: `eval_id` and `spec.model`. -/
structure TaskStart where
  evalId : PyStr
  model : PyStr

/-- A `SampleEnd`.  The scores are the values of `sample.scores` by scorer, in
the order of the dict. -/
structure SampleEnd where
  evalId : PyStr
  runId : PyStr
  sampleId : PyStr
  epoch : ℤ
  scores : Option (List (PyStr × PyValue))
  distinct : ∀ s ∈ scores, (s.map Prod.fst).Nodup

/-- What the hook is told. -/
inductive Event where
  | taskStart (data : TaskStart)
  | sampleEnd (data : SampleEnd)

/-- `_is_failing`, of the value of a score. -/
def isFailing (value : PyValue) : Bool := value.pyEq (.str incorrect)

namespace SampleEnd

variable (data : SampleEnd)

/-- `failing`. -/
def failing : List (PyStr × PyValue) := (data.scores.getD []).filter fun s => isFailing s.2

/-- `subject_ref`. -/
def subjectRef : PyStr := lit "inspect:" ++ data.evalId ++ lit "/" ++ data.sampleId

/-- `detail`. -/
def detail : PyStr :=
  lit "Inspect sample " ++ data.sampleId ++ lit " scored INCORRECT on " ++
    (lit ", ").intercalate ((sortedBy strLe data.failing).map Prod.fst)

/-- `context`. -/
def context : Items :=
  members [
    ("eval_id", .str data.evalId),
    ("run_id", .str data.runId),
    ("sample_id", .str data.sampleId),
    ("epoch", .int data.epoch)]

/-- `self._model_by_eval.get(data.eval_id) or subject_ref`. -/
def agentId (modelByEval : Items) : PyValue :=
  let model := (getKey (.str data.evalId) modelByEval).getD .none
  if truthy model then model else .str data.subjectRef

/-- The payload. -/
def correction (modelByEval : Items) : PyValue :=
  buildCorrection (data.agentId modelByEval) data.subjectRef data.detail
    (strItems data.failing) data.context

end SampleEnd

/-! ## The hook -/

/-- The two failures the hook meets. -/
inductive Failure where
  | signing
  | persisting
deriving DecidableEq

/-- The message of the first failure. -/
def Failure.message : Failure → String
  | .signing => "corrlog: failed to sign correction receipt"
  | .persisting => "corrlog: failed to persist receipt to %s"

/-- The message of the ones after it. -/
def Failure.repeatedMessage : Failure → String
  | .signing => "corrlog: repeated failure to sign correction receipt"
  | .persisting => "corrlog: repeated failure to persist receipt to %s"

/-- The levels of `logger.debug` and `logger.exception`. -/
inductive Level where
  | debug
  | error
deriving DecidableEq

variable {ε ρ : Type}

/-- A call, with how it ended.  The exceptions are of a type `ε`, the receipts of
a type `ρ`, and a signer may return `None`. -/
inductive Called (ε ρ : Type) where
  | sign (correction : PyValue) (ended : Except ε (Option ρ))
  | append (receipt : ρ) (ended : Except ε Unit)
  | log (level : Level) (message : String) (args : List PyValue)

/-- A signer: how each call ends. -/
structure Signer (ε ρ : Type) where
  ends : List (Called ε ρ) → PyValue → Except ε (Option ρ)

/-- A sink: how each call ends, and `getattr(sink, "path", "sink")`. -/
structure Sink (ε ρ : Type) where
  ends : List (Called ε ρ) → ρ → Except ε Unit
  path : PyValue

/-- `CorrlogReceiptHook`. -/
structure Hook (ε ρ : Type) where
  signer : Option (Signer ε ρ)
  sink : Option (Sink ε ρ)
  signWarned : Bool := false
  persistWarned : Bool := false
  modelByEval : Items := []

/-- The flag of a failure. -/
def Hook.warned (h : Hook ε ρ) : Failure → Bool
  | .signing => h.signWarned
  | .persisting => h.persistWarned

/-- Setting it. -/
def Hook.warn (h : Hook ε ρ) : Failure → Hook ε ρ
  | .signing => { h with signWarned := true }
  | .persisting => { h with persistWarned := true }

/-- The hook and all calls so far. -/
structure World (ε ρ : Type) where
  hook : Hook ε ρ
  calls : List (Called ε ρ)

/-- A new hook. -/
def start (signer : Option (Signer ε ρ)) (sink : Option (Sink ε ρ)) : World ε ρ :=
  ⟨{ signer := signer, sink := sink }, []⟩

/-- A handler, or a part of one. -/
abbrev Handler (ε ρ α : Type) := Code (World ε ρ) ε α

/-- Noting a call. -/
def note (c : Called ε ρ) : Handler ε ρ Unit := modify fun w => { w with calls := w.calls ++ [c] }

/-- `signer.sign(correction)`. -/
def Signer.sign (s : Signer ε ρ) (correction : PyValue) : Handler ε ρ (Option ρ) := do
  let ended := s.ends (← get).calls correction
  note (.sign correction ended)
  liftExcept ended

/-- `sink.append(receipt)`. -/
def Sink.append (s : Sink ε ρ) (receipt : ρ) : Handler ε ρ Unit := do
  let ended := s.ends (← get).calls receipt
  note (.append receipt ended)
  liftExcept ended

/-- The body of both `except` blocks. -/
def logFailure (kind : Failure) (args : List PyValue) : Handler ε ρ Unit := do
  if (← get).hook.warned kind then
    note (.log .debug kind.repeatedMessage args)
  else
    modify fun w => { w with hook := w.hook.warn kind }
    note (.log .error kind.message args)

/-- `on_task_start`. -/
def onTaskStart (data : TaskStart) : Handler ε ρ Unit :=
  modify fun w => { w with
    hook.modelByEval := setKey (.str data.evalId) (.str data.model) w.hook.modelByEval }

/-- `on_sample_end`. -/
def onSampleEnd (data : SampleEnd) : Handler ε ρ Unit := do
  if data.failing.isEmpty then return
  let hook := (← get).hook
  let correction := data.correction hook.modelByEval
  let some signer := hook.signer | return
  -- the handler of a failure to sign returns, which is the outer `none`
  let signed ← tryCatch (some <$> signer.sign correction) fun _ => do
    logFailure .signing []
    return none
  let (some (some receipt), some sink) := (signed, hook.sink) | return
  tryCatch (sink.append receipt) fun _ => logFailure .persisting [sink.path]

/-- The handler of an event. -/
def handle : Event → Handler ε ρ Unit
  | .taskStart data => onTaskStart data
  | .sampleEnd data => onSampleEnd data

/-! ## What a handler does -/

/-- The world after a call. -/
def World.after (w : World ε ρ) (c : Called ε ρ) : World ε ρ := { w with calls := w.calls ++ [c] }

@[simp] theorem World.after_hook (w : World ε ρ) (c : Called ε ρ) : (w.after c).hook = w.hook := rfl

/-- The call to the logger at a failure. -/
def Hook.logCall (h : Hook ε ρ) (kind : Failure) (args : List PyValue) : Called ε ρ :=
  if h.warned kind then .log .debug kind.repeatedMessage args else .log .error kind.message args

/-- Every failure is one call of the logger. -/
theorem Hook.logCall_eq (h : Hook ε ρ) (kind : Failure) (args : List PyValue) :
    ∃ level message, h.logCall kind args = .log level message args := by
  rw [Hook.logCall]
  split
  · exact ⟨_, _, rfl⟩
  · exact ⟨_, _, rfl⟩

@[simp] theorem runFrom_note (c : Called ε ρ) (w : World ε ρ) :
    runFrom (note c) w = (.ok (), w.after c) := rfl

/-- The signer is called once, and the call is noted with its end. -/
@[simp] theorem runFrom_sign (s : Signer ε ρ) (c : PyValue) (w : World ε ρ) :
    runFrom (s.sign c) w = (s.ends w.calls c, w.after (.sign c (s.ends w.calls c))) := by
  simp [Signer.sign]

/-- The sink is called once, and the call is noted with its end. -/
@[simp] theorem runFrom_append (s : Sink ε ρ) (r : ρ) (w : World ε ρ) :
    runFrom (s.append r) w = (s.ends w.calls r, w.after (.append r (s.ends w.calls r))) := by
  simp [Sink.append]

/-- A second failure of a kind changes nothing. -/
theorem Hook.warn_of_warned {h : Hook ε ρ} {kind : Failure} (hw : h.warned kind = true) :
    h.warn kind = h := by
  cases h
  cases kind with
  | signing => cases hw; rfl
  | persisting => cases hw; rfl

/-- A failure is logged, at the level of its kind so far. -/
@[simp] theorem runFrom_logFailure (kind : Failure) (args : List PyValue) (w : World ε ρ) :
    runFrom (logFailure kind args) w =
      (.ok (), ⟨w.hook.warn kind, w.calls ++ [w.hook.logCall kind args]⟩) := by
  rw [logFailure, runFrom_bind, runFrom_get]
  cases h : w.hook.warned kind with
  | true => simp [h, Hook.logCall, Hook.warn_of_warned, World.after]
  | false => simp [h, Hook.logCall, World.after]

/-- The calls an event leads to and the hook after it. -/
inductive Does (sink : Sink ε ρ) (w : World ε ρ) :
    Event → List (Called ε ρ) → Hook ε ρ → Prop
  | started (data : TaskStart) :
      Does sink w (.taskStart data) [] { w.hook with
        modelByEval := setKey (.str data.evalId) (.str data.model) w.hook.modelByEval }
  | passed {data : SampleEnd} (h : data.failing = []) :
      Does sink w (.sampleEnd data) [] w.hook
  | unsigned {data : SampleEnd} {c : PyValue} {e : ε} (h : data.failing ≠ [])
      (hc : c = data.correction w.hook.modelByEval) :
      Does sink w (.sampleEnd data) [.sign c (.error e), w.hook.logCall .signing []]
        (w.hook.warn .signing)
  | signedNone {data : SampleEnd} {c : PyValue} (h : data.failing ≠ [])
      (hc : c = data.correction w.hook.modelByEval) :
      Does sink w (.sampleEnd data) [.sign c (.ok none)] w.hook
  | unsaved {data : SampleEnd} {c : PyValue} {r : ρ} {e : ε} (h : data.failing ≠ [])
      (hc : c = data.correction w.hook.modelByEval) :
      Does sink w (.sampleEnd data)
        [.sign c (.ok (some r)), .append r (.error e), w.hook.logCall .persisting [sink.path]]
        (w.hook.warn .persisting)
  | saved {data : SampleEnd} {c : PyValue} {r : ρ} (h : data.failing ≠ [])
      (hc : c = data.correction w.hook.modelByEval) :
      Does sink w (.sampleEnd data) [.sign c (.ok (some r)), .append r (.ok ())] w.hook

/-- No handler raises. -/
theorem runFrom_handle {signer : Signer ε ρ} {sink : Sink ε ρ} {w : World ε ρ}
    (hsigner : w.hook.signer = some signer) (hsink : w.hook.sink = some sink) (e : Event) :
    ∃ calls hook, runFrom (handle e) w = (.ok (), ⟨hook, w.calls ++ calls⟩) ∧
      Does sink w e calls hook := by
  cases e with
  | taskStart data =>
      refine ⟨_, _, ?_, .started data⟩
      rw [List.append_nil]
      rfl
  | sampleEnd data =>
      by_cases hf : data.failing = []
      · refine ⟨_, _, ?_, .passed hf⟩
        simp [handle, onSampleEnd, hf]
      have hne : data.failing.isEmpty = false := by simp [hf]
      obtain ⟨c, hc⟩ : ∃ c, c = data.correction w.hook.modelByEval := ⟨_, rfl⟩
      cases hs : signer.ends w.calls c with
      | error e =>
          refine ⟨_, _, ?_, .unsigned (e := e) hf hc⟩
          simp [handle, onSampleEnd, hne, hsigner, hs, ← hc, World.after]
      | ok receipt =>
          cases receipt with
          | none =>
              refine ⟨_, _, ?_, .signedNone hf hc⟩
              simp [handle, onSampleEnd, hne, hsigner, hs, ← hc, World.after]
          | some r =>
              cases ha : sink.ends (w.calls ++ [.sign c (.ok (some r))]) r with
              | error e =>
                  refine ⟨_, _, ?_, .unsaved (r := r) (e := e) hf hc⟩
                  simp [handle, onSampleEnd, hne, hsigner, hsink, hs, ha, ← hc, World.after]
              | ok u =>
                  refine ⟨_, _, ?_, .saved (r := r) hf hc⟩
                  simp [handle, onSampleEnd, hne, hsigner, hsink, hs, ha, ← hc, World.after]

/-! ## What is observed -/

/-- The payload handed to the signer. -/
def Called.correction? : Called ε ρ → Option PyValue
  | .sign c _ => some c
  | _ => none

/-- The receipt the signer returned. -/
def Called.receipt? : Called ε ρ → Option ρ
  | .sign _ (.ok receipt) => receipt
  | _ => none

/-- The receipt handed to the sink. -/
def Called.appended? : Called ε ρ → Option ρ
  | .append receipt _ => some receipt
  | _ => none

/-- The call logs a failure of the kind at ERROR. -/
def Called.isError (kind : Failure) : Called ε ρ → Bool
  | .log .error message _ => message == kind.message
  | _ => false

/-- An event, how its handler ended and what it called. -/
structure Handled (ε ρ : Type) where
  event : Event
  ended : Except ε Unit
  calls : List (Called ε ρ)

/-- Events, one after the other. -/
def handled (w : World ε ρ) : List Event → List (Handled ε ρ)
  | [] => []
  | e :: events =>
      let r := runFrom (handle e) w
      ⟨e, r.1, r.2.calls.drop w.calls.length⟩ :: handled r.2 events

/-- The model a task start of the eval brings. -/
def Event.modelFor (evalId : PyStr) : Event → Option PyStr
  | .taskStart data => if data.evalId = evalId then some data.model else none
  | .sampleEnd _ => none

/-- The model of the latest task start of an eval. -/
def latestModel (evalId : PyStr) (events : List Event) : Option PyStr :=
  events.reverse.findSome? (Event.modelFor evalId)

/-- Who is to blame for a sample after the events: the model, if there is one and
it is not empty. -/
def blamed (events : List Event) (data : SampleEnd) : PyStr :=
  ((latestModel data.evalId events).filter fun model => !model.isEmpty).getD data.subjectRef

/-- The payload names the agent and the scorers that gave `INCORRECT`. -/
structure Names (c : PyValue) (agent : PyStr) (data : SampleEnd) : Prop where
  agent : c.getItem "agent_id" = .ok (.str agent)
  failing : ∃ failing, (c.getItem "metadata" >>= (·.getItem "failing_scorers")) =
      .ok (.dict (strItems failing)) ∧
    ∀ s, s ∈ failing ↔ s ∈ data.scores.getD [] ∧ s.2 = .str incorrect

/-- The calls an event should lead to. -/
def Proper (before : List Event) : Event → List (Called ε ρ) → Prop
  | .taskStart _, calls => calls = []
  | .sampleEnd data, calls =>
      calls.filterMap Called.appended? = calls.filterMap Called.receipt? ∧
      ((∀ s ∈ data.scores.getD [], s.2 ≠ .str incorrect) → calls = []) ∧
      ((∃ s ∈ data.scores.getD [], s.2 = .str incorrect) →
        ∃ c, calls.filterMap Called.correction? = [c] ∧ Names c (blamed before data) data)

/-! ## The payload names the model -/

/-- A later start of the eval names its model again. -/
theorem latestModel_concat (evalId : PyStr) (events : List Event) (e : Event) :
    latestModel evalId (events ++ [e]) = (e.modelFor evalId).or (latestModel evalId events) := by
  rw [latestModel, List.reverse_concat, ← List.singleton_append, List.findSome?_append]
  rw [List.findSome?_singleton]
  rfl

/-- The failing scorers are those whose score is `INCORRECT`. -/
theorem mem_failing {data : SampleEnd} {s : PyStr × PyValue} :
    s ∈ data.failing ↔ s ∈ data.scores.getD [] ∧ s.2 = .str incorrect := by
  simp [SampleEnd.failing, isFailing]

theorem failing_eq_nil_iff {data : SampleEnd} :
    data.failing = [] ↔ ∀ s ∈ data.scores.getD [], s.2 ≠ .str incorrect := by
  simp [SampleEnd.failing, isFailing, List.filter_eq_nil_iff]

/-- The model that is blamed is the latest one of the eval. -/
theorem agentId_eq {data : SampleEnd} {modelByEval : Items} {events : List Event}
    (h : ∀ id, getKey (.str id) modelByEval = (latestModel id events).map .str) :
    data.agentId modelByEval = .str (blamed events data) := by
  rw [SampleEnd.agentId, blamed, h]
  cases latestModel data.evalId events with
  | none => rfl
  | some model =>
      cases model with
      | nil => rfl
      | cons c model => rfl

/-- The payload of a sample names the model, the scorers and the sample. -/
theorem names_correction {data : SampleEnd} {modelByEval : Items} {events : List Event}
    (h : ∀ id, getKey (.str id) modelByEval = (latestModel id events).map .str) :
    Names (data.correction modelByEval) (blamed events data) data := by
  refine ⟨?_, data.failing, ?_, fun s => mem_failing⟩
  · rw [← agentId_eq h]
    rfl
  · rfl

/-! ## One event -/

namespace Does

variable {sink : Sink ε ρ} {w : World ε ρ} {e : Event} {calls : List (Called ε ρ)} {hook : Hook ε ρ}

/-- An event leaves the signer as it is. -/
theorem signer_eq (h : Does sink w e calls hook) : hook.signer = w.hook.signer := by
  cases h <;> rfl

theorem sink_eq (h : Does sink w e calls hook) : hook.sink = w.hook.sink := by
  cases h <;> rfl

/-- A start sets the model of its eval, and no other event sets any. -/
theorem modelByEval (h : Does sink w e calls hook) (id : PyStr) :
    getKey (.str id) hook.modelByEval =
      ((e.modelFor id).map PyValue.str).or (getKey (.str id) w.hook.modelByEval) := by
  cases h with
  | started data =>
      show getKey (.str id) (setKey (.str data.evalId) (.str data.model) w.hook.modelByEval) = _
      rw [Event.modelFor]
      split
      next h => rw [h, getKey_setKey_self]; rfl
      next h => rw [getKey_setKey_ne fun he => h (PyKey.str.inj he).symm]; rfl
  | passed | unsigned | signedNone | unsaved | saved => rfl

/-- A failure is logged at ERROR if its flag is not set, and then it is. -/
theorem isError_logCall (hook : Hook ε ρ) (kind kind' : Failure) (args : List PyValue) :
    (hook.warned kind).toNat + [hook.logCall kind' args].countP (Called.isError kind) =
      ((hook.warn kind').warned kind).toNat := by
  rw [Hook.logCall]
  cases kind <;> cases kind' <;> split <;>
    simp_all [Called.isError, Failure.message, Hook.warn, Hook.warned]

/-- For each kind of failure, the number of errors logged is the change of its flag. -/
theorem countP_isError (h : Does sink w e calls hook) (kind : Failure) :
    (w.hook.warned kind).toNat + calls.countP (Called.isError kind) =
      (hook.warned kind).toNat := by
  cases h with
  | started data => cases kind <;> rfl
  | unsigned => exact isError_logCall w.hook kind .signing []
  | unsaved => exact isError_logCall w.hook kind .persisting [sink.path]
  | passed | signedNone | saved => rfl

/-- Errors are logged for the kinds of failure only. -/
theorem exists_kind (h : Does sink w e calls hook) {message : String} {args : List PyValue}
    (hlog : .log .error message args ∈ calls) : ∃ kind : Failure, message = kind.message := by
  have hcall : ∀ {kind : Failure} {args'}, .log .error message args = w.hook.logCall kind args' →
      message = kind.message := by
    intro kind args' h
    rw [Hook.logCall] at h
    split at h
    · cases h
    · cases h
      rfl
  cases h with
  | unsigned => exact ⟨.signing, hcall (by simpa using hlog)⟩
  | unsaved => exact ⟨.persisting, hcall (by simpa using hlog)⟩
  | started | passed | signedNone | saved => simp at hlog

/-- Every receipt that was signed is handed to the sink, and nothing else. -/
theorem appended_eq (h : Does sink w e calls hook) :
    calls.filterMap Called.appended? = calls.filterMap Called.receipt? := by
  cases h with
  | unsigned | unsaved =>
      obtain ⟨level, message, hlog⟩ := w.hook.logCall_eq _ _
      rw [hlog]
      rfl
  | started | passed | signedNone | saved => rfl

theorem proper (h : Does sink w e calls hook) {before : List Event}
    (hmodels : ∀ id, getKey (.str id) w.hook.modelByEval = (latestModel id before).map .str) :
    Proper before e calls := by
  have happ := h.appended_eq
  cases h with
  | started data => rfl
  | passed hnil =>
      rw [failing_eq_nil_iff] at hnil
      exact ⟨happ, fun _ => rfl, fun ⟨s, hs, hv⟩ => absurd hv (hnil s hs)⟩
  | unsigned hne hc | unsaved hne hc =>
      obtain ⟨level, message, hlog⟩ := w.hook.logCall_eq _ _
      refine ⟨happ, fun h => absurd (failing_eq_nil_iff.mpr h) hne, fun _ => ⟨_, ?_, hc ▸
        names_correction hmodels⟩⟩
      rw [hlog]
      rfl
  | signedNone hne hc | saved hne hc =>
      exact ⟨happ, fun h => absurd (failing_eq_nil_iff.mpr h) hne, fun _ => ⟨_, rfl, hc ▸
        names_correction hmodels⟩⟩

end Does

/-! ## All events -/

/-- The hook's handlers, one after the other. -/
def system (signer : Signer ε ρ) (sink : Sink ε ρ) : System (World ε ρ) (Handled ε ρ) where
  init w := w = start (some signer) (some sink)
  step w x w' := runFrom (handle x.event) w = (x.ended, w') ∧ x.calls = w'.calls.drop w.calls.length

/-- What holds after the events of a log. -/
structure Inv (signer : Signer ε ρ) (sink : Sink ε ρ) (log : List (Handled ε ρ))
    (w : World ε ρ) : Prop where
  signer : w.hook.signer = some signer
  sink : w.hook.sink = some sink
  models : ∀ id, getKey (.str id) w.hook.modelByEval =
    (latestModel id (log.map Handled.event)).map .str
  appended : (log.flatMap Handled.calls).filterMap Called.appended? =
    (log.flatMap Handled.calls).filterMap Called.receipt?
  errors : ∀ kind, (log.flatMap Handled.calls).countP (Called.isError kind) =
    (w.hook.warned kind).toNat
  kinds : ∀ message args, .log .error message args ∈ log.flatMap Handled.calls →
    ∃ kind : Failure, message = kind.message

section

variable {signer : Signer ε ρ} {sink : Sink ε ρ} {log : List (Handled ε ρ)} {w w' : World ε ρ}
  {x : Handled ε ρ}

theorem Inv.start : Inv signer sink [] (start (some signer) (some sink)) :=
  ⟨rfl, rfl, fun _ => rfl, rfl, fun kind => by cases kind <;> rfl,
    fun _ _ h => absurd h List.not_mem_nil⟩

/-- What one event does from a state of a run. -/
theorem Inv.does (h : Inv signer sink log w) (hs : (system signer sink).step w x w') :
    x.ended = .ok () ∧ Does sink w x.event x.calls w'.hook := by
  obtain ⟨calls, hook, hrun, hdoes⟩ := runFrom_handle h.signer h.sink x.event
  obtain ⟨hend, hcalls⟩ := hs
  rw [hrun, Prod.mk.injEq] at hend
  obtain ⟨hended, rfl⟩ := hend
  rw [List.drop_left] at hcalls
  rw [hcalls]
  exact ⟨hended.symm, hdoes⟩

/-- The invariant is kept by every event. -/
theorem Inv.step (h : Inv signer sink log w) (hs : (system signer sink).step w x w') :
    Inv signer sink (log ++ [x]) w' := by
  obtain ⟨-, hdoes⟩ := h.does hs
  refine ⟨hdoes.signer_eq.trans h.signer, hdoes.sink_eq.trans h.sink, fun id => ?_, ?_,
    fun kind => ?_, fun message args hlog => ?_⟩
  · rw [hdoes.modelByEval, h.models, List.map_append, List.map_singleton, latestModel_concat,
      Option.map_or]
  · simp [h.appended, hdoes.appended_eq]
  · rw [← hdoes.countP_isError, ← h.errors kind]
    simp
  · rw [List.flatMap_append, List.mem_append, List.flatMap_singleton] at hlog
    rcases hlog with hlog | hlog
    · exact h.kinds message args hlog
    · exact hdoes.exists_kind hlog

/-- The invariant holds in every state that is reached. -/
theorem Inv.of_run (h : Run (system signer sink) log w) : Inv signer sink log w :=
  h.invariant (fun _ hs => hs ▸ Inv.start) fun _ _ _ _ hi hs => hi.step hs

/-- The hook handles any events one after the other. -/
theorem steps_handled (signer : Signer ε ρ) (sink : Sink ε ρ) (w : World ε ρ)
    (events : List Event) : ∃ w', Steps (system signer sink) w (handled w events) w' := by
  induction events generalizing w with
  | nil => exact ⟨w, .refl⟩
  | cons e events ih =>
      obtain ⟨w', h⟩ := ih (runFrom (handle e) w).2
      have hs : (system signer sink).step w ⟨e, (runFrom (handle e) w).1, _⟩
          (runFrom (handle e) w).2 :=
        ⟨rfl, rfl⟩
      exact ⟨w', (Steps.refl.tail hs).trans h⟩

theorem map_event_handled (w : World ε ρ) (events : List Event) :
    (handled w events).map Handled.event = events := by
  induction events generalizing w with
  | nil => rfl
  | cons e events ih => rw [handled, List.map_cons, ih]

end

/-- Whatever the signer and the sink do: no handler raises; a sample end with a
score of `INCORRECT` is signed once, with a payload that names the agent and the
scorers, and other events are not; what the signer returns is appended; and of each
failure one ERROR at most is logged. -/
theorem hook_runs (signer : Signer ε ρ) (sink : Sink ε ρ) (events : List Event) :
    let log := handled (start (some signer) (some sink)) events
    let calls := log.flatMap Handled.calls
    log.map Handled.event = events ∧
      (∀ before x after, log = before ++ x :: after →
        x.ended = .ok () ∧ Proper (before.map Handled.event) x.event x.calls) ∧
      calls.filterMap Called.appended? = calls.filterMap Called.receipt? ∧
      (∀ message args, .log .error message args ∈ calls →
        ∃ kind : Failure, message = kind.message) ∧
      ∀ kind, calls.countP (Called.isError kind) ≤ 1 := by
  intro log calls
  obtain ⟨w, hsteps⟩ := steps_handled signer sink (start (some signer) (some sink)) events
  have hfinal := Inv.of_run ⟨_, rfl, hsteps⟩
  refine ⟨map_event_handled _ _, fun before x after hlog => ?_, hfinal.appended,
    hfinal.kinds, fun kind => ?_⟩
  · rw [show handled _ _ = _ from hlog] at hsteps
    obtain ⟨t, u, hbefore, hstep, -⟩ := hsteps.at_label
    have hi := Inv.of_run ⟨_, rfl, hbefore⟩
    obtain ⟨hended, hdoes⟩ := hi.does hstep
    exact ⟨hended, hdoes.proper hi.models⟩
  · rw [hfinal.errors kind]
    exact Bool.toNat_le _

end Corrlog.Inspect
