import Corrlog.Adapters.CrewAI
import Corrlog.Adapters.Wrappers
import Corrlog.Core.Entries
import Corrlog.Core.Forks
import Corrlog.Machine.Processes

/-!
# Sessions

The tools, the middleware and the CrewAI hooks of an operator share a key and a sink, and
`mark_wrong` flags a record that is in it.  The tools are awaited, so their calls overlap:
each use of an adapter is a process, and a session is an interleaving of these
(`sessions`).

Whatever the tools do and the contexts hold, the sink is a forest.  Each record in it is
the last one of a list of its records that `verify_chain` accepts, and of no other one
(`sink_forest`).
-/

namespace Corrlog.Sessions

open Python
open Machine
open Adapters
open CrewAI (Context State)
open Linear (Grown History)
open Wrappers (JsonCall Raised Request ToolResult Trace invoke logged reported runJson toolError
  wrapped)

/-! ## The code -/

section

variable {P : Platform} {α : Type} (a : Adapter P)

/-- The arguments of `retract` in `mark_wrong`. -/
def markArgs (prior reason fixNote : PyObject) : RetractArgs where
  agentId := strObject a.agentId
  principalId := strObject a.principalId
  priorRecord := prior
  reason := reason
  trigger := .str "human_flagged"
  fixType := .str "replace"
  fixNote := fixNote

/-- `mark_wrong`, which the three adapters have in common. -/
def markWrong (env : Env) (prior reason fixNote : PyObject) : Code (Trace α) Raised PyObject :=
  logged a (.retract env (markArgs a prior reason fixNote))

/-- `run_json` up to the call of the tool. -/
def recordJson (name : Option PyStr) (env : Env) (call : JsonCall) :
    Code (Trace JsonCall) Raised PyObject :=
  logged a (action a env (lit "autogen.tool." ++ name.getD (lit "unknown_tool"))
    (asDict "args" call.args) (callMetadata "call_id" call.callId))

/-- `run_json` from there on. -/
def finishJson (name : Option PyStr) (env : Env) (call : JsonCall) (record : PyObject)
    (outcome : Except Foreign PyObject) : Code (Trace JsonCall) Raised PyObject := do
  let toolName := name.getD (lit "unknown_tool")
  let result ← tryCatch (invoke call outcome) fun e => do
    reported a env record (e.str.map fun s => lit "tool raised: " ++ s)
      (fixNote "autogen tool " toolName " raised")
    throw e
  if let some error := resultError result.val then
    reported a env record (pyStr P error) (fixNote "autogen tool " toolName " errored")
  return result

theorem runJson_eq (name : Option PyStr) (env env' : Env) (call : JsonCall)
    (outcome : Except Foreign PyObject) : runJson a name env env' call outcome =
      recordJson a name env call >>= fun record => finishJson a name env' call record outcome := rfl

/-- `wrap_tool_call` and `awrap_tool_call` up to the call of the handler. -/
def recordRequest (env : Env) (request : Request) : Code (Trace Request) Raised PyObject :=
  logged a (action a env (lit "langchain.tool." ++ request.toolName)
    (asDict "args" request.toolArgs) (callMetadata "tool_call_id" request.toolId))

/-- The two from there on. -/
def finishRequest (lower : PyStr → PyStr) (env : Env) (request : Request) (record : PyObject)
    (outcome : Except Foreign ToolResult) : Code (Trace Request) Raised ToolResult := do
  let result ← invoke request outcome
  if let some err := toolError lower result then
    reported a env record (some err) (fixNote "langchain tool " request.toolName " errored")
  return result

theorem wrapped_eq (lower : PyStr → PyStr) (env env' : Env) (request : Request)
    (outcome : Except Foreign ToolResult) : wrapped a lower env env' request outcome =
      recordRequest a env request >>= fun record =>
        finishRequest a lower env' request record outcome := rfl

end

/-! ## Interleavings -/

section

variable (P : Platform)

/-- A use of an adapter. -/
inductive Use where
  /-- `run_json` of a `GuardedTool` with this name. -/
  | runJson (a : Adapter P) (name : Option PyStr) (call : JsonCall)
  /-- `wrap_tool_call` or `awrap_tool_call`. -/
  | wrapToolCall (a : Adapter P) (request : Request)
  /-- The two hooks of a context, of any kind. -/
  | hooks (ctx : Context)
  | markWrong (a : Adapter P) (prior reason fixNote : PyObject)

/-- How far it has come. -/
inductive Task where
  | todo (use : Use P)
  /-- The tool has been called. -/
  | tool (a : Adapter P) (name : Option PyStr) (call : JsonCall) (record : PyObject)
  /-- The handler has been called. -/
  | handler (a : Adapter P) (request : Request) (record : PyObject)
  /-- `_before` has returned or raised. -/
  | called (ctx : Context)
  | done

end

variable {P : Platform}

/-- The use signs with the key. -/
def Use.SignsWith (privateKey : P.PrivateKey) : Use P → Prop
  | .runJson a _ _ | .wrapToolCall a _ | .markWrong a _ _ _ => a.privateKey = privateKey
  | .hooks _ => True

section

variable (lower : PyStr → PyStr) (crew : Adapter P)

/-- The code of a wrapper, run on the sink, ends in this way and appends these records. -/
def Runs {α ρ : Type} (code : Code (Trace α) Raised ρ) (s : State) (ended : Except Raised ρ)
    (added : List PyValue) : Prop :=
  ∃ invoked, runFrom code ⟨[], s.sink⟩ = (ended, ⟨invoked, s.sink ++ added⟩)

/-- The steps of a use.  A tool or a handler may end in any way, and so may the tool of a
context.  What is flagged is in the sink. -/
inductive Step : State → Task P → List PyValue → State → Task P → Prop
  | runJson {s : State} {a : Adapter P} {name : Option PyStr} {call : JsonCall} {env : Env}
      {record : PyObject} {added : List PyValue} :
      Runs (recordJson a name env call) s (.ok record) added →
        Step s (.todo (.runJson a name call)) added { s with sink := s.sink ++ added }
          (.tool a name call record)
  | runJsonRaises {s : State} {a : Adapter P} {name : Option PyStr} {call : JsonCall} {env : Env}
      {e : Raised} {added : List PyValue} :
      Runs (recordJson a name env call) s (.error e) added →
        Step s (.todo (.runJson a name call)) added { s with sink := s.sink ++ added } .done
  | tool {s : State} {a : Adapter P} {name : Option PyStr} {call : JsonCall} {env : Env}
      {record : PyObject} {outcome : Except Foreign PyObject} {ended : Except Raised PyObject}
      {added : List PyValue} :
      Runs (finishJson a name env call record outcome) s ended added →
        Step s (.tool a name call record) added { s with sink := s.sink ++ added } .done
  | wrapToolCall {s : State} {a : Adapter P} {request : Request} {env : Env} {record : PyObject}
      {added : List PyValue} :
      Runs (recordRequest a env request) s (.ok record) added →
        Step s (.todo (.wrapToolCall a request)) added { s with sink := s.sink ++ added }
          (.handler a request record)
  | wrapToolCallRaises {s : State} {a : Adapter P} {request : Request} {env : Env} {e : Raised}
      {added : List PyValue} :
      Runs (recordRequest a env request) s (.error e) added →
        Step s (.todo (.wrapToolCall a request)) added { s with sink := s.sink ++ added } .done
  | handler {s : State} {a : Adapter P} {request : Request} {env : Env} {record : PyObject}
      {outcome : Except Foreign ToolResult} {ended : Except Raised ToolResult}
      {added : List PyValue} :
      Runs (finishRequest a lower env request record outcome) s ended added →
        Step s (.handler a request record) added { s with sink := s.sink ++ added } .done
  | before {s t : State} {ctx : Context} {env : Env} {ended : Except PyErr Context}
      {added : List PyValue} :
      runFrom (CrewAI.before crew env ctx) s = (ended, t) → t.sink = s.sink ++ added →
        Step s (.todo (.hooks ctx)) added t (.called (ended.toOption.getD ctx))
  | after {s t : State} {ctx : Context} {env : Env} {toolResult error : PyObject}
      {ended : Except PyErr Unit} {added : List PyValue} :
      runFrom (CrewAI.after crew env (ctx.finished toolResult error)) s = (ended, t) →
        t.sink = s.sink ++ added → Step s (.called ctx) added t .done
  | markWrong {s : State} {a : Adapter P} {prior reason fixNote : PyObject} {env : Env}
      {ended : Except Raised PyObject} {added : List PyValue} :
      prior.val ∈ s.sink → Runs (markWrong a env prior reason fixNote) s ended added →
        Step s (.todo (.markWrong a prior reason fixNote)) added
          { s with sink := s.sink ++ added } .done

variable {ι : Type} [DecidableEq ι]

/-- Nothing in the sink and in flight at first, then the uses in any order. -/
def sessions (uses : ι → {use : Use P // use.SignsWith crew.privateKey}) :
    System (Pool ι State (Task P)) (ι × List PyValue) :=
  processes (fun s => s.inflight = ∅ ∧ s.sink = []) (fun i => .todo (uses i).val)
    fun _ => Step lower crew

end

/-! ## What is appended -/

/-- Nothing, or the record of an action. -/
def AddsAction (privateKey : P.PrivateKey) (added : List PyValue) : Prop :=
  added = [] ∨ ∃ env args o, (Call.record env args).object privateKey = .ok o ∧ added = [o.val]

/-- Nothing, or a correction of the record. -/
def AddsCorrection (privateKey : P.PrivateKey) (prior : PyObject) (added : List PyValue) : Prop :=
  added = [] ∨ ∃ env args o, (Call.retract env args).object privateKey = .ok o ∧
    args.priorRecord = prior ∧ added = [o.val]

theorem AddsAction.wf {privateKey : P.PrivateKey} {added : List PyValue}
    (h : AddsAction privateKey added) : ∀ v ∈ added, v.WF := by
  rcases h with rfl | ⟨_, _, o, _, rfl⟩
  · exact List.forall_mem_nil _
  · exact List.forall_mem_singleton.mpr o.wf

theorem AddsCorrection.wf {privateKey : P.PrivateKey} {prior : PyObject} {added : List PyValue}
    (h : AddsCorrection privateKey prior added) : ∀ v ∈ added, v.WF := by
  rcases h with rfl | ⟨_, _, o, _, _, rfl⟩
  · exact List.forall_mem_nil _
  · exact List.forall_mem_singleton.mpr o.wf

section

variable {α : Type} {a : Adapter P} {env : Env} {t : Trace α}

theorem reported_adds (a : Adapter P) (env : Env) (prior : PyObject) (reason : Option PyStr)
    (note : PyStr) (t : Trace α) :
    ∃ ended added, runFrom (reported a env prior reason note) t =
        (ended, { t with sink := t.sink ++ added }) ∧
      AddsCorrection a.privateKey prior added := by
  cases reason with
  | none => exact ⟨_, [], by rw [List.append_nil]; rfl, .inl rfl⟩
  | some s =>
      cases ho : (correction a env prior s note).object a.privateKey with
      | ok o => exact ⟨.ok (), [o.val], by simp [reported, ho], .inr ⟨env, _, o, ho, rfl, rfl⟩⟩
      | error e => exact ⟨.error (.library e), [], by simp [reported, ho], .inl rfl⟩

theorem finishJson_adds {name : Option PyStr} {call : JsonCall} {record : PyObject}
    {outcome : Except Foreign PyObject} {t : Trace JsonCall} :
    ∃ added, (runFrom (finishJson a name env call record outcome) t).2.sink = t.sink ++ added ∧
      AddsCorrection a.privateKey record added := by
  cases outcome with
  | error e =>
      obtain ⟨ended, added, hrun, h⟩ := reported_adds a env record
        (e.str.map fun s => lit "tool raised: " ++ s)
        (fixNote "autogen tool " (name.getD (lit "unknown_tool")) " raised")
        ⟨t.invoked ++ [call], t.sink⟩
      refine ⟨added, ?_, h⟩
      cases ended <;> simp [finishJson, invoke, Except.mapError, Raised.str, hrun]
  | ok result =>
      cases hv : resultError result.val with
      | none => exact ⟨[], by simp [finishJson, invoke, Except.mapError, hv], .inl rfl⟩
      | some v =>
          obtain ⟨ended, added, hrun, h⟩ := reported_adds a env record
            (pyStr P v) (fixNote "autogen tool " (name.getD (lit "unknown_tool")) " errored")
            ⟨t.invoked ++ [call], t.sink⟩
          refine ⟨added, ?_, h⟩
          cases ended <;> simp [finishJson, invoke, Except.mapError, hv, hrun]

theorem finishRequest_adds {lower : PyStr → PyStr} {request : Request} {record : PyObject}
    {outcome : Except Foreign ToolResult} {t : Trace Request} :
    ∃ added, (runFrom (finishRequest a lower env request record outcome) t).2.sink =
        t.sink ++ added ∧ AddsCorrection a.privateKey record added := by
  cases outcome with
  | error e => exact ⟨[], by simp [finishRequest, invoke, Except.mapError], .inl rfl⟩
  | ok result =>
      cases herr : toolError lower result with
      | none => exact ⟨[], by simp [finishRequest, invoke, Except.mapError, herr], .inl rfl⟩
      | some err =>
          obtain ⟨ended, added, hrun, h⟩ := reported_adds a env record (some err)
            (fixNote "langchain tool " request.toolName " errored") ⟨t.invoked ++ [request], t.sink⟩
          refine ⟨added, ?_, h⟩
          cases ended <;> simp [finishRequest, invoke, Except.mapError, herr, hrun]

/-- What the code of a wrapper appends. -/
theorem Runs.added_eq {ρ : Type} {code : Code (Trace α) Raised ρ} {s : State}
    {ended : Except Raised ρ} {added added' : List PyValue} (h : Runs code s ended added)
    (hcode : (runFrom code ⟨[], s.sink⟩).2.sink = s.sink ++ added') : added = added' := by
  obtain ⟨invoked, hrun⟩ := h
  rw [hrun] at hcode
  exact List.append_cancel_left hcode

/-- Signing a record and appending it: there is one record if this does not raise. -/
theorem Runs.logged {c : Call} {s : State} {ended : Except Raised PyObject}
    {added : List PyValue}
    (h : Runs (logged a c : Code (Trace α) Raised PyObject) s ended added) :
    added = [] ∧ (∀ o, ended ≠ .ok o) ∨
      ∃ o, c.object a.privateKey = .ok o ∧ ended = .ok o ∧ added = [o.val] := by
  obtain ⟨invoked, hrun⟩ := h
  rw [Wrappers.runFrom_logged] at hrun
  cases ho : c.object a.privateKey with
  | ok o =>
      rw [ho] at hrun
      obtain ⟨rfl, hsink⟩ := Prod.mk.inj hrun
      exact .inr ⟨o, rfl, rfl, (List.append_cancel_left (Trace.mk.inj hsink).2).symm⟩
  | error e =>
      rw [ho] at hrun
      obtain ⟨rfl, hsink⟩ := Prod.mk.inj hrun
      refine .inl ⟨?_, fun o he => by cases he⟩
      exact List.append_cancel_left
        ((Trace.mk.inj hsink).2.symm.trans (List.append_nil _).symm)

end

section

variable {crew : Adapter P} {env : Env} {ctx : Context} {s : State}

/-- `_before` puts a record in flight that it appends. -/
theorem before_adds : ∃ added, (runFrom (CrewAI.before crew env ctx) s).2.sink = s.sink ++ added ∧
    AddsAction crew.privateKey added ∧
      ∀ id r, (runFrom (CrewAI.before crew env ctx) s).2.inflight.lookup id = some r →
        s.inflight.lookup id = some r ∨ r.val ∈ added := by
  have hsame (h : (runFrom (CrewAI.before crew env ctx) s).2 = s) :
      ∃ added, (runFrom (CrewAI.before crew env ctx) s).2.sink = s.sink ++ added ∧
        AddsAction crew.privateKey added ∧
          ∀ id r, (runFrom (CrewAI.before crew env ctx) s).2.inflight.lookup id = some r →
            s.inflight.lookup id = some r ∨ r.val ∈ added :=
    ⟨[], by rw [h, List.append_nil], .inl rfl, fun id r hr => .inl (h ▸ hr)⟩
  cases hname : ctx.toolName with
  | none => exact hsame (by simp [CrewAI.before, hname])
  | some toolName =>
      cases hinput : ctx.toolInput with
      | none => exact hsame (by simp [CrewAI.before, hname, hinput])
      | some toolInput =>
          have hrun : runFrom (CrewAI.before crew env ctx) s = _ :=
            CrewAI.runFrom_before hname hinput
          cases hr : CrewAI.made crew env toolName toolInput with
          | error e => exact hsame (by rw [hrun, hr])
          | ok o =>
              rw [hrun, hr]
              refine ⟨[o.val], rfl, .inr ⟨env, _, o, hr, rfl⟩, fun id r hlookup => ?_⟩
              rcases eq_or_ne id env.uuid with rfl | hne
              · rw [AList.lookup_insert, Option.some.injEq] at hlookup
                exact .inr (hlookup ▸ List.mem_singleton_self _)
              · rw [AList.lookup_insert_ne hne] at hlookup
                exact .inl hlookup

/-- What is popped was in flight, and nothing new is. -/
theorem pop_adds (actionId : Option PyStr) (s : State) :
    ∃ prior inflight, runFrom (CrewAI.pop actionId) s = (.ok prior, ⟨inflight, s.sink⟩) ∧
      (∀ r ∈ prior, ∃ id, s.inflight.lookup id = some r) ∧
        ∀ id r, inflight.lookup id = some r → s.inflight.lookup id = some r := by
  match actionId with
  | none | some [] =>
      refine ⟨none, s.inflight, rfl, fun r hr => ?_, fun _ _ hr => hr⟩
      cases hr
  | some (c :: cs) =>
      refine ⟨_, _, CrewAI.runFrom_pop (List.cons_ne_nil c cs), fun r hr => ⟨_, hr⟩,
        fun id r hr => ?_⟩
      rcases eq_or_ne id (c :: cs) with rfl | hne
      · rw [AList.lookup_erase] at hr
        cases hr
      · rwa [AList.lookup_erase_ne hne] at hr

/-- `_after` corrects a record that was in flight. -/
theorem after_adds : ∃ added, (runFrom (CrewAI.after crew env ctx) s).2.sink = s.sink ++ added ∧
    (added = [] ∨ ∃ id prior, s.inflight.lookup id = some prior ∧
      AddsCorrection crew.privateKey prior added) ∧
        ∀ id r, (runFrom (CrewAI.after crew env ctx) s).2.inflight.lookup id = some r →
          s.inflight.lookup id = some r := by
  obtain ⟨prior, inflight, hpop, hprior, hkeep⟩ := pop_adds ctx.actionId s
  have hnone (h : (runFrom (CrewAI.after crew env ctx) s).2 = s ∨
      (runFrom (CrewAI.after crew env ctx) s).2 = ⟨inflight, s.sink⟩) :
      ∃ added, (runFrom (CrewAI.after crew env ctx) s).2.sink = s.sink ++ added ∧
        (added = [] ∨ ∃ id prior, s.inflight.lookup id = some prior ∧
          AddsCorrection crew.privateKey prior added) ∧
            ∀ id r, (runFrom (CrewAI.after crew env ctx) s).2.inflight.lookup id = some r →
              s.inflight.lookup id = some r := by
    refine ⟨[], ?_, .inl rfl, fun id r hr => ?_⟩
    · rcases h with h | h <;> rw [h, List.append_nil]
    · rcases h with h | h
      · rwa [h] at hr
      · rw [h] at hr
        exact hkeep id r hr
  cases hname : ctx.toolName with
  | none => exact hnone (.inl (by simp [CrewAI.after, hname]))
  | some toolName =>
      cases hresult : ctx.toolResult with
      | none => exact hnone (.inl (by simp [CrewAI.after, hname, hresult]))
      | some toolResult =>
          cases hf : CrewAI.failure ctx.error.val toolResult.val with
          | none => exact hnone (.inr (by simp [CrewAI.after, hname, hresult, hpop, hf]))
          | some error =>
              cases hs : pyStr P error with
              | none => exact hnone (.inr (by simp [CrewAI.after, hname, hresult, hpop, hf, hs]))
              | some reason =>
                  cases prior with
                  | none => exact hnone (.inr (by simp [CrewAI.after, hname, hresult, hpop, hf, hs]))
                  | some prior =>
                      cases hc : CrewAI.corrected crew env toolName prior reason with
                      | error e =>
                          exact hnone (.inr (by
                            simp [CrewAI.after, hname, hresult, hpop, hf, hs, hc]))
                      | ok corr =>
                          have hrun : (runFrom (CrewAI.after crew env ctx) s).2 =
                              ⟨inflight, s.sink ++ [corr.val]⟩ := by
                            simp [CrewAI.after, CrewAI.append, hname, hresult, hpop, hf, hs, hc]
                          obtain ⟨id, hid⟩ := hprior prior rfl
                          rw [hrun]
                          exact ⟨_, rfl, .inr ⟨id, prior, hid, .inr ⟨env, _, corr, hc, rfl, rfl⟩⟩,
                            hkeep⟩

end

/-! ## The sink -/

section

variable {privateKey : P.PrivateKey} {l added : List PyValue}
  (hsign : ∀ data, P.verify (P.publicKey privateKey) (P.sign privateKey data) data = true)

include hsign

/-- The record of an action is a first one. -/
theorem grown_action (h : Grown (rules P (some (P.publicKey privateKey))) l)
    (hadd : AddsAction privateKey added) :
    Grown (rules P (some (P.publicKey privateKey))) (l ++ added) := by
  rcases hadd with rfl | ⟨env, args, o, ho, rfl⟩
  · rwa [List.append_nil]
  · have hret := record_returned (Call.object_eq_ok.mp ho)
    refine h.first (hret.verify hsign) ?_
    obtain ⟨items, _, _, _, _, _, he, _, hsup, _⟩ := hret.verified hsign
    rw [he]
    exact (linked_none P).mpr hsup

/-- A correction of a record of the list follows it. -/
theorem grown_correction (h : Grown (rules P (some (P.publicKey privateKey))) l)
    {prior : PyObject} (hprior : prior.val ∈ l) (hadd : AddsCorrection privateKey prior added) :
    Grown (rules P (some (P.publicKey privateKey))) (l ++ added) := by
  rcases hadd with rfl | ⟨env, args, o, ho, rfl, rfl⟩
  · rwa [List.append_nil]
  · have hr := Call.object_eq_ok.mp ho
    obtain ⟨_, _, hret⟩ := retract_returned hr
    exact h.next hprior (hret.verify hsign) (linked_of_retract hsign (h.ok _ hprior) hr rfl)

end

section

variable {ι : Type} {lower : PyStr → PyStr} {crew : Adapter P}

/-- What holds of the state after the steps of a log: the sink is what they have
appended, a list that has grown, and what is in flight is in it. -/
structure Trail (crew : Adapter P) (log : List (ι × List PyValue)) (s : State) : Prop where
  sink_eq : s.sink = (log.map Prod.snd).flatten
  wf : ∀ v ∈ s.sink, v.WF
  grown : Grown (rules P (some (P.publicKey crew.privateKey))) s.sink
  inflight : ∀ id r, s.inflight.lookup id = some r → r.val ∈ s.sink

/-- What holds of a use that has appended these records. -/
def Task.Holds (privateKey : P.PrivateKey) (own : List (List PyValue)) : Task P → Prop
  | .todo use => use.SignsWith privateKey
  | .tool a _ _ record | .handler a _ record =>
      a.privateKey = privateKey ∧ record.val ∈ own.flatten
  | .called _ | .done => True

theorem Trail.concat {log : List (ι × List PyValue)} {s t : State} {i : ι}
    {added : List PyValue} (h : Trail crew log s) (hsink : t.sink = s.sink ++ added)
    (hwf : ∀ v ∈ added, v.WF)
    (hgrown : Grown (rules P (some (P.publicKey crew.privateKey))) (s.sink ++ added))
    (hinflight : ∀ id r, t.inflight.lookup id = some r →
      s.inflight.lookup id = some r ∨ r.val ∈ added) :
    Trail crew (log ++ [(i, added)]) t := by
  constructor
  case sink_eq => rw [hsink, h.sink_eq, List.map_append, List.flatten_append]; simp
  case wf =>
    rw [hsink, List.forall_mem_append]
    exact ⟨h.wf, hwf⟩
  case grown => rwa [hsink]
  case inflight =>
    intro id r hr
    rw [hsink]
    rcases hinflight id r hr with hr | hr
    · exact List.mem_append_left _ (h.inflight id r hr)
    · exact List.mem_append_right _ hr

variable [DecidableEq ι]

/-- What a use has appended is in the sink. -/
theorem Trail.mem_sink {log : List (ι × List PyValue)} {s : State} (h : Trail crew log s) {i : ι}
    {v : PyValue} (hv : v ∈ (own i log).flatten) : v ∈ s.sink := by
  rw [h.sink_eq]
  exact (List.Sublist.flatten (List.filter_sublist.map Prod.snd)).subset hv

theorem trail_step
    (hsign : ∀ data, P.verify (P.publicKey crew.privateKey) (P.sign crew.privateKey data) data =
      true) {log : List (ι × List PyValue)} {i : ι} {s t : State} {p q : Task P}
    {added : List PyValue} (h : Trail crew log s) (hp : p.Holds crew.privateKey (own i log))
    (hstep : Step lower crew s p added t q) :
    Trail crew (log ++ [(i, added)]) t ∧ q.Holds crew.privateKey (own i log ++ [added]) := by
  have haction (hadd : AddsAction crew.privateKey added) :
      Trail crew (log ++ [(i, added)]) { s with sink := s.sink ++ added } :=
    h.concat rfl hadd.wf (grown_action hsign h.grown hadd) fun id r hr => .inl hr
  have hcorrection {prior : PyObject} (hprior : prior.val ∈ s.sink)
      (hadd : AddsCorrection crew.privateKey prior added) :
      Trail crew (log ++ [(i, added)]) { s with sink := s.sink ++ added } :=
    h.concat rfl hadd.wf (grown_correction hsign h.grown hprior hadd) fun id r hr => .inl hr
  have hlast {v : PyValue} : v ∈ (own i log ++ [[v]]).flatten := by simp
  cases hstep with
  | runJson hrun =>
      rcases Runs.logged hrun with ⟨_, hne⟩ | ⟨o, ho, he, rfl⟩
      · exact absurd rfl (hne _)
      · obtain rfl := Except.ok.inj he
        exact ⟨haction (.inr ⟨_, _, _, hp ▸ ho, rfl⟩), hp, hlast⟩
  | runJsonRaises hrun =>
      rcases Runs.logged hrun with ⟨rfl, _⟩ | ⟨o, _, he, _⟩
      · exact ⟨haction (.inl rfl), trivial⟩
      · cases he
  | tool hrun =>
      obtain ⟨hkey, hrecord⟩ := hp
      obtain ⟨_, hsink, hadd⟩ := finishJson_adds
      obtain rfl := hrun.added_eq hsink
      exact ⟨hcorrection (h.mem_sink hrecord) (hkey ▸ hadd), trivial⟩
  | wrapToolCall hrun =>
      rcases Runs.logged hrun with ⟨_, hne⟩ | ⟨o, ho, he, rfl⟩
      · exact absurd rfl (hne _)
      · obtain rfl := Except.ok.inj he
        exact ⟨haction (.inr ⟨_, _, _, hp ▸ ho, rfl⟩), hp, hlast⟩
  | wrapToolCallRaises hrun =>
      rcases Runs.logged hrun with ⟨rfl, _⟩ | ⟨o, _, he, _⟩
      · exact ⟨haction (.inl rfl), trivial⟩
      · cases he
  | handler hrun =>
      obtain ⟨hkey, hrecord⟩ := hp
      obtain ⟨_, hsink, hadd⟩ := finishRequest_adds
      obtain rfl := hrun.added_eq hsink
      exact ⟨hcorrection (h.mem_sink hrecord) (hkey ▸ hadd), trivial⟩
  | before hrun hsink =>
      obtain ⟨_, hsink', hadd, hkeep⟩ := before_adds
      rw [hrun] at hsink' hkeep
      obtain rfl := List.append_cancel_left (hsink.symm.trans hsink')
      exact ⟨h.concat hsink hadd.wf (grown_action hsign h.grown hadd) hkeep, trivial⟩
  | after hrun hsink =>
      obtain ⟨_, hsink', hadd, hkeep⟩ := after_adds
      rw [hrun] at hsink' hkeep
      obtain rfl := List.append_cancel_left (hsink.symm.trans hsink')
      refine ⟨?_, trivial⟩
      have hkeep' (id : PyStr) (r : PyObject) (hr : t.inflight.lookup id = some r) :
          s.inflight.lookup id = some r ∨ r.val ∈ added := .inl (hkeep id r hr)
      rcases hadd with rfl | ⟨id, prior, hprior, hadd⟩
      · refine h.concat hsink (List.forall_mem_nil _) ?_ hkeep'
        rw [List.append_nil]
        exact h.grown
      · exact h.concat hsink hadd.wf
          (grown_correction hsign h.grown (h.inflight id prior hprior) hadd) hkeep'
  | markWrong hprior hrun =>
      rcases Runs.logged hrun with ⟨rfl, _⟩ | ⟨o, ho, _, rfl⟩
      · exact ⟨hcorrection hprior (.inl rfl), trivial⟩
      · exact ⟨hcorrection hprior (.inr ⟨_, _, _, hp ▸ ho, rfl, rfl⟩), trivial⟩

/-- What holds after every session. -/
theorem trail_run
    (hsign : ∀ data, P.verify (P.publicKey crew.privateKey) (P.sign crew.privateKey data) data =
      true) {uses : ι → {use : Use P // use.SignsWith crew.privateKey}}
    {log : List (ι × List PyValue)} {s : Pool ι State (Task P)}
    (h : Run (sessions lower crew uses) log s) : Trail crew log s.shared := by
  refine (h.processes (G := Trail crew) (A := fun _ own p => p.Holds crew.privateKey own) ?_ ?_
    ?_).1
  · rintro s ⟨hinflight, hsink⟩
    constructor
    case sink_eq => exact hsink
    case wf =>
      rw [hsink]
      exact List.forall_mem_nil _
    case grown =>
      rw [hsink]
      exact .nil
    case inflight =>
      intro id r hr
      rw [hinflight, AList.lookup_empty] at hr
      cases hr
  · exact fun i => (uses i).property
  · exact fun i log s p added t q htrail hp hstep => trail_step hsign htrail hp hstep

/-- After any session the sink is a forest: if the identifiers in it are distinct, each
record is the last one of one list of them, and in their order, that `verify_chain`
accepts. -/
theorem sink_forest
    (hsign : ∀ data, P.verify (P.publicKey crew.privateKey) (P.sign crew.privateKey data) data =
      true) {uses : ι → {use : Use P // use.SignsWith crew.privateKey}}
    {log : List (ι × List PyValue)} {s : Pool ι State (Task P)}
    (h : Run (sessions lower crew uses) log s) (hids : (s.shared.sink.map recordId).Nodup) :
    ∀ r ∈ s.shared.sink, ∃ earlier : List PyValue, (earlier ++ [r]).Sublist s.shared.sink ∧
      verifyChain P (.list (earlier ++ [r])) (some (P.publicKey crew.privateKey)) .none = true ∧
      ∀ other : List PyValue, other ++ [r] ⊆ s.shared.sink →
        verifyChain P (.list (other ++ [r])) (some (P.publicKey crew.privateKey)) .none = true →
          other = earlier := by
  intro r hr
  obtain ⟨earlier, hsub, hist⟩ := (trail_run hsign h).grown.exists_history hids r hr
  refine ⟨earlier, hsub, (verifyChain_iff P).mpr ⟨hist, rfl⟩, fun other hother hchain => ?_⟩
  exact ((verifyChain_iff P).mp hchain).1.eq_of_last (predecessor_of_first P)
    (predecessor_of_next P) hids hother hsub.subset hist

end

namespace Sample

open Adapters.Sample

/-- A call of a guarded tool, and one whose context has the two hooks. -/
def uses : Bool → {use : Use platform // use.SignsWith adapter.privateKey}
  | false => ⟨.runJson adapter (some (lit "search")) Wrappers.Sample.call, rfl⟩
  | true => ⟨.hooks CrewAI.Sample.context, trivial⟩

theorem recordId_of_getItem {r : PyValue} {id : PyStr}
    (h : r.getItem "correctionId" = .ok (.str id)) : recordId r = id := by
  rw [recordId, h]

section

variable {o : PyObject}

/-- The tool is about to be called. -/
theorem runs_recordJson
    (ho : (action adapter env (lit "autogen.tool." ++ lit "search") (asDict "args" arguments)
      (callMetadata "call_id" .none)).object adapter.privateKey = .ok o) (s : State) :
    Runs (recordJson adapter (some (lit "search")) env Wrappers.Sample.call) s (.ok o)
      [o.val] := by
  refine ⟨[], (Wrappers.runFrom_logged _ _).trans ?_⟩
  rw [Option.getD_some, Wrappers.Sample.call, ho]

/-- It has timed out. -/
theorem runs_finishJson {o' : PyObject}
    (ho' : (correction adapter env' o (lit "tool raised: " ++ lit "timeout")
      (fixNote "autogen tool " (lit "search") " raised")).object adapter.privateKey = .ok o')
    (s : State) :
    Runs (finishJson adapter (some (lit "search")) env' Wrappers.Sample.call o
      (.error Wrappers.Sample.timeout)) s (.error (.tool Wrappers.Sample.timeout)) [o'.val] := by
  refine ⟨[Wrappers.Sample.call], ?_⟩
  simp [finishJson, invoke, reported, Except.mapError, Raised.str, Wrappers.Sample.timeout, ho']

/-- The hook before the other call. -/
theorem runFrom_before (ho : CrewAI.made adapter env'' (lit "search") arguments = .ok o)
    (s : State) : runFrom (CrewAI.before adapter env'' CrewAI.Sample.context) s =
      (.ok (CrewAI.Sample.context.setActionId env''.uuid),
        ⟨s.inflight.insert env''.uuid o, s.sink ++ [o.val]⟩) :=
  (CrewAI.runFrom_before rfl rfl).trans (by rw [ho])

/-- The hook after it, when nothing has failed. -/
theorem runFrom_after (sink : List PyValue) :
    runFrom (CrewAI.after adapter idleEnv
        ((CrewAI.Sample.context.setActionId env''.uuid).finished (.str "done") .none))
        ⟨AList.insert env''.uuid o ∅, sink⟩ =
      (.ok (), ⟨(AList.insert env''.uuid o ∅).erase env''.uuid, sink⟩) := by
  have hlookup : (AList.insert env''.uuid o (∅ : AList fun _ : PyStr => PyObject)).lookup
      env''.uuid = some o := AList.lookup_insert _
  exact @CrewAI.runFrom_after _ adapter idleEnv _ ⟨_, sink⟩ _ (.str "done") o env''.uuid rfl rfl
    rfl env''_proper.uuid_ne_nil hlookup

end

/-- The calls overlap.  The tool that times out leaves two records, and the other call
begins between them. -/
theorem exists_run : ∃ o o' o'' : PyObject, ∃ s : Pool Bool State (Task platform),
    Run (sessions id adapter uses)
      [(false, [o.val]), (true, [o'.val]), (false, [o''.val]), (true, [])] s ∧
    s.shared.sink = [o.val, o'.val, o''.val] ∧ (s.shared.sink.map recordId).Nodup := by
  obtain ⟨o, ho⟩ : ∃ o, (action adapter env (lit "autogen.tool." ++ lit "search")
      (asDict "args" arguments) (callMetadata "call_id" .none)).object adapter.privateKey =
        .ok o := (action_ok_iff env_proper (by decide) (by decide)).mpr recordable
  obtain ⟨o', ho'⟩ : ∃ o', CrewAI.made adapter env'' (lit "search") arguments = .ok o' :=
    (CrewAI.exists_made env''_proper).mpr recordable
  obtain ⟨_, _, _, hprior⟩ := prior_of_action ho
  obtain ⟨o'', ho''⟩ : ∃ o'', (correction adapter env' o (lit "tool raised: " ++ lit "timeout")
      (fixNote "autogen tool " (lit "search") " raised")).object adapter.privateKey = .ok o'' :=
    (correction_ok_iff env'_proper platform_sha256 recordable hprior (by decide)).mpr
      ⟨by decide +kernel, by decide, by decide +kernel⟩
  have hstart : Run (sessions id adapter uses) [] ⟨⟨∅, []⟩, fun i => .todo (uses i).val⟩ :=
    .start ⟨⟨rfl, rfl⟩, rfl⟩
  have h₁ := hstart.process (i := false) (.runJson (runs_recordJson ho _))
  have h₂ := h₁.process (i := true) (.before (runFrom_before ho' _) rfl)
  have h₃ := h₂.process (i := false) (.tool (runs_finishJson ho'' _))
  have h₄ := h₃.process (i := true) (.after (runFrom_after _) (List.append_nil _).symm)
  refine ⟨o, o', o'', _, h₄, rfl, ?_⟩
  have hid : recordId o.val = env.uuid :=
    recordId_of_getItem (record_entries (Call.object_eq_ok.mp ho)).correctionId
  have hid' : recordId o'.val = env''.uuid := recordId_of_getItem (CrewAI.correctionId_made ho')
  have hid'' : recordId o''.val = env'.uuid :=
    recordId_of_getItem (retract_entries (Call.object_eq_ok.mp ho'')).correctionId
  show [recordId o.val, recordId o'.val, recordId o''.val].Nodup
  rw [hid, hid', hid'']
  decide

end Sample

/-- After two calls that overlap each of the three records has its list. -/
theorem sink_forest_sample : ∃ o o' o'' : PyObject,
    ∃ s : Pool Bool State (Task Adapters.Sample.platform),
    Run (sessions id Adapters.Sample.adapter Sample.uses)
      [(false, [o.val]), (true, [o'.val]), (false, [o''.val]), (true, [])] s ∧
    s.shared.sink = [o.val, o'.val, o''.val] ∧
    ∀ r ∈ s.shared.sink, ∃ earlier : List PyValue, (earlier ++ [r]).Sublist s.shared.sink ∧
      verifyChain Adapters.Sample.platform (.list (earlier ++ [r]))
        (some (Adapters.Sample.platform.publicKey ())) .none = true := by
  obtain ⟨o, o', o'', s, h, hsink, hids⟩ := Sample.exists_run
  refine ⟨o, o', o'', s, h, hsink, fun r hr => ?_⟩
  obtain ⟨earlier, hsub, hchain, _⟩ := sink_forest Adapters.Sample.platform_verify h hids r hr
  exact ⟨earlier, hsub, hchain⟩

end Corrlog.Sessions
