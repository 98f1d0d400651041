import Corrlog.Adapters.Calls
import Corrlog.Core.Lifecycle
import Corrlog.Machine.Code
import Corrlog.Machine.InFlight
import Corrlog.Machine.Run

/-!
# CrewAI hooks

`_before` signs the record of a tool call and holds it in flight under its
identifier, which it sets on the context of the call.  `_after` takes it out again
and, if the call has failed, signs a correction of it.

All calls share the map, so a run is any interleaving of the hooks of many
contexts (`machine`).  The map holds the records of the calls that are under way,
and every failure is corrected if its text can be signed (`hooks_correct`).  The
record is taken out before the correction is built, so an error that prints as
nothing makes `_after` raise and leaves no trace of itself (`hook_raises`).
-/

namespace Corrlog.CrewAI

open Python
open Machine
open Adapters

/-! ## The hooks -/

/-- A context: the attributes that are read, as far as they are there, and whether
`action_id` can be set on it. -/
structure Context where
  toolName : Option PyStr
  toolInput : Option PyObject
  toolResult : Option PyObject := none
  error : PyObject := .none
  actionId : Option PyStr := none
  keeps : Bool := true

namespace Context

variable (ctx : Context)

/-- `ctx.action_id = ...`, best-effort. -/
def setActionId (actionId : PyStr) : Context :=
  if ctx.keeps then { ctx with actionId := some actionId } else ctx

/-- The context after its call. -/
def finished (toolResult error : PyObject) : Context :=
  { ctx with toolResult := some toolResult, error := error }

variable {ctx} {actionId : PyStr} {toolResult error : PyObject}

@[simp] theorem toolName_setActionId : (ctx.setActionId actionId).toolName = ctx.toolName := by
  rw [setActionId]
  split <;> rfl

@[simp] theorem toolInput_setActionId : (ctx.setActionId actionId).toolInput = ctx.toolInput := by
  rw [setActionId]
  split <;> rfl

/-- Whether a context keeps attributes does not change. -/
@[simp] theorem keeps_setActionId : (ctx.setActionId actionId).keeps = ctx.keeps := by
  rw [setActionId]
  split <;> rfl

/-- A context that keeps attributes keeps this one. -/
theorem actionId_setActionId (h : ctx.keeps = true) :
    (ctx.setActionId actionId).actionId = some actionId := by
  rw [setActionId, if_pos h]

@[simp] theorem toolName_finished : (ctx.finished toolResult error).toolName = ctx.toolName := rfl

@[simp] theorem toolInput_finished : (ctx.finished toolResult error).toolInput = ctx.toolInput :=
  rfl

@[simp] theorem toolResult_finished :
    (ctx.finished toolResult error).toolResult = some toolResult := rfl

@[simp] theorem error_finished : (ctx.finished toolResult error).error = error := rfl

@[simp] theorem actionId_finished : (ctx.finished toolResult error).actionId = ctx.actionId := rfl

@[simp] theorem keeps_finished : (ctx.finished toolResult error).keeps = ctx.keeps := rfl

/-- The context of a tool call, which keeps what is set on it. -/
structure IsCall (ctx : Context) : Prop where
  toolName : ∃ s, ctx.toolName = some s
  toolInput : ∃ v, ctx.toolInput = some v
  keeps : ctx.keeps = true

theorem IsCall.setActionId (h : ctx.IsCall) : (ctx.setActionId actionId).IsCall := by
  constructor
  · simpa using h.toolName
  · simpa using h.toolInput
  · simpa using h.keeps

theorem IsCall.finished (h : ctx.IsCall) : (ctx.finished toolResult error).IsCall :=
  ⟨h.toolName, h.toolInput, h.keeps⟩

end Context

/-- `_inflight` and what is in the sink. -/
structure State where
  inflight : AList fun _ : PyStr => PyObject
  sink : List PyValue

variable {P : Platform} (a : Adapter P)

/-- The record that `_before` makes. -/
def made (env : Env) (toolName : PyStr) (toolInput : PyObject) : Except PyErr PyObject :=
  (action a env (lit "crewai.tool." ++ toolName) (asDict "input" toolInput) .none).object
    a.privateKey

/-- The correction that `_after` makes. -/
def corrected (env : Env) (toolName : PyStr) (prior : PyObject) (reason : PyStr) :
    Except PyErr PyObject :=
  (correction a env prior reason (fixNote "crewai tool " toolName " errored: " ++ reason)).object
    a.privateKey

/-- `sink.append(record)`, for a sink that takes everything. -/
def append (record : PyValue) : Code State PyErr Unit :=
  modify fun s => { s with sink := s.sink ++ [record] }

/-- `CrewAICorrectionLog._before`.  It leaves the context that is returned here. -/
def before (env : Env) (ctx : Context) : Code State PyErr Context := do
  let some toolName := ctx.toolName | return ctx
  let some toolInput := ctx.toolInput | return ctx
  let record ← liftExcept (made a env toolName toolInput)
  -- the identifier is drawn by the constructor, so it is a text
  let .str actionId ← liftExcept (record.val.getItem "correctionId") | throw ⟨.TypeError, []⟩
  modify fun s => { s with inflight := s.inflight.insert actionId record }
  append record.val
  return ctx.setActionId actionId

/-- `self._inflight.pop(action_id, None) if action_id else None`. -/
def pop (actionId : Option PyStr) : Code State PyErr (Option PyObject) := do
  let s ← get
  match actionId with
  | none | some [] => return none
  | some actionId =>
      modify fun s => { s with inflight := s.inflight.erase actionId }
      return s.inflight.lookup actionId

/-- `error`, if it is not `None`. -/
def failure (error toolResult : PyValue) : Option PyValue :=
  if truthy error then some error else (resultError toolResult).map fun _ => toolResult

/-- `CrewAICorrectionLog._after`. -/
def after (env : Env) (ctx : Context) : Code State PyErr Unit := do
  let some toolName := ctx.toolName | return
  let some toolResult := ctx.toolResult | return
  let prior ← pop ctx.actionId
  let some error := failure ctx.error.val toolResult.val | return
  let some reason := pyStr P error | throw ⟨.TypeError, []⟩
  let some prior := prior | return
  let correction ← liftExcept (corrected a env toolName prior reason)
  append correction.val

/-! ## Interleavings -/

/-- A hook of a context.  When the second one fires, the context has a result and
may have an error. -/
inductive Hook (κ : Type) where
  | before (c : κ)
  | after (c : κ) (toolResult error : PyObject)

namespace Hook

variable {κ : Type}

/-- The context of the call. -/
def context : Hook κ → κ
  | .before c | .after c _ _ => c

/-- Whether the tool is about to be called. -/
def isBefore : Hook κ → Bool
  | .before _ => true
  | .after _ _ _ => false

end Hook

/-- A hook that has fired: how it has ended and what it has appended. -/
structure Event (κ : Type) where
  hook : Hook κ
  ended : Except PyErr Unit
  appended : List PyValue

/-- The state, the contexts, and the identifiers that have been drawn. -/
structure World (κ : Type) where
  state : State
  contexts : κ → Context
  drawn : List PyStr

variable {κ : Type}

/-- The context has had `_before`, which has appended this record. -/
def Opened (log : List (Event κ)) (c : κ) (r : PyObject) : Prop :=
  ∃ e ∈ log, e.hook = .before c ∧ e.appended = [r.val]

/-- The context has had `_after`. -/
def Closed (log : List (Event κ)) (c : κ) : Prop :=
  ∃ e ∈ log, ∃ toolResult error, e.hook = .after c toolResult error

variable [DecidableEq κ]

/-- The hooks of a context, in order: whether they are `_before`. -/
def hooks (log : List (Event κ)) (c : κ) : List Bool :=
  (log.filter fun e => e.hook.context = c).map fun e => e.hook.isBefore

/-- Each context has one `_before` and later one `_after`, as far as the log goes. -/
def Once (log : List (Event κ)) : Prop := ∀ c, hooks log c <+: [true, false]

/-- Firing a hook. -/
def fire (env : Env) (w : World κ) : Hook κ → Except PyErr Unit × World κ
  | .before c =>
      let (ended, state) := runFrom (before a env (w.contexts c)) w.state
      let ctx := match ended with
        | .ok ctx => ctx
        | .error _ => w.contexts c
      (ended.map fun _ => (), ⟨state, Function.update w.contexts c ctx, env.uuid :: w.drawn⟩)
  | .after c toolResult error =>
      let ctx := (w.contexts c).finished toolResult error
      let (ended, state) := runFrom (after a env ctx) w.state
      (ended, ⟨state, Function.update w.contexts c ctx, env.uuid :: w.drawn⟩)

/-- Nothing in flight and any contexts of tool calls; then hooks, in any order, with a
new identifier each. -/
def machine : System (World κ) (Event κ) where
  init w := w.state.inflight = ∅ ∧ ∀ c, (w.contexts c).IsCall
  step w e w' := ∃ env : Env, env.Proper P ∧ env.uuid ∉ w.drawn ∧
    fire a env w e.hook = (e.ended, w') ∧ w'.state.sink = w.state.sink ++ e.appended

/-! ## One hook -/

section

variable {a} {env : Env} {ctx : Context} {s : State} {toolName : PyStr}

/-- The record has the identifier that was drawn for it. -/
theorem correctionId_made {toolInput r : PyObject} (h : made a env toolName toolInput = .ok r) :
    r.val.getItem "correctionId" = .ok (.str env.uuid) := by
  obtain ⟨items, hr, hfields⟩ := toolRecord_fields (isDict_asDict "input" toolInput)
    (Call.object_eq_ok.mp h)
  exact PyValue.getItem_eq_ok.mpr ⟨items, hr, hfields "correctionId" (by decide) (by decide)⟩

/-- `_before` on the context of a tool call. -/
theorem runFrom_before {toolInput : PyObject} (hname : ctx.toolName = some toolName)
    (hinput : ctx.toolInput = some toolInput) :
    runFrom (before a env ctx) s =
      match made a env toolName toolInput with
      | .ok r =>
          (.ok (ctx.setActionId env.uuid), ⟨s.inflight.insert env.uuid r, s.sink ++ [r.val]⟩)
      | .error e => (.error e, s) := by
  rw [before, hname, hinput]
  cases hr : made a env toolName toolInput with
  | ok r => simp [hr, correctionId_made hr, append]
  | error e => simp [hr]

/-- What is in flight is taken out by its identifier. -/
theorem runFrom_pop {actionId : PyStr} (h : actionId ≠ []) :
    runFrom (pop (some actionId)) s =
      (.ok (s.inflight.lookup actionId), { s with inflight := s.inflight.erase actionId }) := by
  cases actionId with
  | nil => exact absurd rfl h
  | cons c cs => simp [pop]

/-- `_after` on a context whose record is in flight. -/
theorem runFrom_after {toolResult prior : PyObject} {actionId : PyStr}
    (hname : ctx.toolName = some toolName) (hresult : ctx.toolResult = some toolResult)
    (hid : ctx.actionId = some actionId) (hne : actionId ≠ [])
    (hprior : s.inflight.lookup actionId = some prior) :
    runFrom (after a env ctx) s =
      match failure ctx.error.val toolResult.val with
      | none => (.ok (), ⟨s.inflight.erase actionId, s.sink⟩)
      | some error =>
          match pyStr P error with
          | none => (.error ⟨.TypeError, []⟩, ⟨s.inflight.erase actionId, s.sink⟩)
          | some reason =>
              match corrected a env toolName prior reason with
              | .ok corr => (.ok (), ⟨s.inflight.erase actionId, s.sink ++ [corr.val]⟩)
              | .error e => (.error e, ⟨s.inflight.erase actionId, s.sink⟩) := by
  rw [after, hname, hresult, hid]
  cases hf : failure ctx.error.val toolResult.val with
  | none => simp [runFrom_pop hne, hf]
  | some error =>
      cases hs : pyStr P error with
      | none => simp [runFrom_pop hne, hf, hs]
      | some reason =>
          cases hc : corrected a env toolName prior reason with
          | ok corr => simp [runFrom_pop hne, hf, hs, hprior, hc, append]
          | error e => simp [runFrom_pop hne, hf, hs, hprior, hc]

/-- Hooks only append. -/
theorem sink_before : s.sink <+: (runFrom (before a env ctx) s).2.sink := by
  cases hname : ctx.toolName with
  | none => simp [before, hname]
  | some toolName =>
      cases hinput : ctx.toolInput with
      | none => simp [before, hname, hinput]
      | some toolInput =>
          rw [runFrom_before hname hinput]
          cases made a env toolName toolInput with
          | ok r => exact List.prefix_append _ _
          | error e => exact List.prefix_rfl

/-- The sink is not touched. -/
theorem sink_pop (actionId : Option PyStr) (s : State) :
    ∃ prior inflight, runFrom (pop actionId) s = (.ok prior, ⟨inflight, s.sink⟩) := by
  match actionId with
  | none | some [] => exact ⟨_, _, rfl⟩
  | some (_ :: _) => exact ⟨_, _, rfl⟩

/-- The hook after a call adds to the sink only. -/
theorem sink_after : s.sink <+: (runFrom (after a env ctx) s).2.sink := by
  obtain ⟨prior, inflight, hpop⟩ := sink_pop ctx.actionId s
  cases hname : ctx.toolName with
  | none => simp [after, hname]
  | some toolName =>
      cases hresult : ctx.toolResult with
      | none => simp [after, hname, hresult]
      | some toolResult =>
          cases hf : failure ctx.error.val toolResult.val with
          | none => simp [after, hname, hresult, hpop, hf]
          | some error =>
              cases hs : pyStr P error with
              | none => simp [after, hname, hresult, hpop, hf, hs]
              | some reason =>
                  cases prior with
                  | none => simp [after, hname, hresult, hpop, hf, hs]
                  | some prior =>
                      cases hc : corrected a env toolName prior reason with
                      | ok corr => simp [after, hname, hresult, hpop, hf, hs, hc, append]
                      | error e => simp [after, hname, hresult, hpop, hf, hs, hc]

end

/-! ## One correction -/

/-- A correction of a failure: it names the record and its digest, and follows it. -/
structure Corrects (a : Adapter P) (r corr : PyValue) : Prop where
  trigger : corr.getItem "trigger" = .ok (.str (lit "check_failed"))
  supersedes : ∃ id data, r.getItem "correctionId" = .ok (.str id) ∧ canonicalJson r = .ok data ∧
    corr.getItem "supersedes" =
      .ok (dictOf [("receiptId", .str id), ("digest", hashObject P data)])
  chain : verifyChain P (.list [r, corr]) (some (P.publicKey a.privateKey)) .none = true

section

variable {a} {env env' : Env} {toolName reason : PyStr} {toolInput r corr : PyObject}

theorem note_ne_nil : fixNote "crewai tool " toolName " errored: " ++ reason ≠ [] := by
  have hprefix : lit "crewai tool " ≠ [] := by decide
  simp [fixNote, hprefix]

/-- The correction of a record that the hook made is linked to it. -/
theorem corrects_of_corrected
    (hsign : ∀ data, P.verify (P.publicKey a.privateKey) (P.sign a.privateKey data) data = true)
    (hr : made a env toolName toolInput = .ok r)
    (hcorr : corrected a env' toolName r reason = .ok corr) (hne : env.uuid ≠ env'.uuid) :
    Corrects a r.val corr.val := by
  obtain ⟨id, type, data, hprior⟩ := prior_of_action hr
  have hretract := Call.object_eq_ok.mp hcorr
  obtain ⟨items, hitems, hfields⟩ := toolRetract_fields hprior note_ne_nil hretract
  have hget {k : String} {v : PyValue} (hv : getStr k items = some v) :
      corr.val.getItem k = .ok v := PyValue.getItem_eq_ok.mpr ⟨items, hitems, hv⟩
  have hid := correctionId_made hr
  have hid' := hget (hfields "correctionId" (by decide) (by decide))
  refine ⟨hget (hfields _ (by decide) (by decide)), ⟨id, data, ?_, hprior.data_eq,
    hget (hfields _ (by decide) (by decide))⟩, ?_⟩
  · obtain ⟨ritems, hritems, hitem⟩ := PyValue.getMethod_eq_ok.mp hprior.id_eq
    obtain ⟨_, he, hitem'⟩ := PyValue.getItem_eq_ok.mp hid
    cases hritems.symm.trans he
    rw [hitem', Option.getD_some] at hitem
    rw [hid, hitem]
  · have hroot : ∀ x ∈ [r.val, corr.val].head?, IsRoot a.privateKey x := by
      intro x hx
      cases hx
      exact Or.inl ⟨_, _, Call.object_eq_ok.mp hr⟩
    have hnext : [r.val, corr.val].IsChain (Corrlog.Corrects a.privateKey) :=
      .cons_cons ⟨_, _, Or.inl rfl, hretract⟩ (.singleton _)
    have hids : [r.val, corr.val].Pairwise fun r r' =>
        r.getItem "correctionId" ≠ r'.getItem "correctionId" := by
      refine List.pairwise_pair.mpr fun heq => hne ?_
      rw [hid, hid'] at heq
      exact PyValue.str.inj (Except.ok.inj heq)
    exact (verifyChain_iff P).mpr
      ⟨history_of_returned hsign hroot hnext (List.cons_ne_nil _ _) hids, rfl⟩

/-- A call is recorded if it can be. -/
theorem exists_made (henv : env.Proper P) :
    (∃ r, made a env toolName toolInput = .ok r) ↔ Recordable a toolName toolInput .none := by
  -- the metadata are those of a call whose identifier is falsy
  have hiff : (∃ o, (action a env (lit "crewai.tool." ++ toolName) (asDict "input" toolInput)
      (callMetadata "call_id" .none)).object a.privateKey = .ok o) ↔
        Recordable a toolName toolInput .none := action_ok_iff henv (by decide) (by decide)
  exact hiff

/-- The record of a call can be corrected exactly with a reason that can be signed. -/
theorem exists_corrected (henv : env.Proper P) (henv' : env'.Proper P)
    (hsha : ∀ data, (P.sha256 data).length = 32) (hr : made a env toolName toolInput = .ok r) :
    (∃ corr, corrected a env' toolName r reason = .ok corr) ↔ IsName reason := by
  obtain ⟨id, type, data, hprior⟩ := prior_of_action hr
  have hrecordable := (exists_made henv).mp ⟨r, hr⟩
  refine (correction_ok_iff henv' hsha hrecordable hprior note_ne_nil).trans ?_
  simp [fixNote, hrecordable.toolName, IsName]

/-! ## The log -/

section

variable {κ : Type} {log : List (Event κ)} {e : Event κ} {c : κ}

/-- A context is opened by the hook before its call. -/
theorem opened_concat {r : PyObject} :
    Opened (log ++ [e]) c r ↔ Opened log c r ∨ e.hook = .before c ∧ e.appended = [r.val] := by
  simp [Opened, or_and_right, exists_or]

/-- A context is closed by the hook after its call. -/
theorem closed_concat : Closed (log ++ [e]) c ↔
    Closed log c ∨ ∃ toolResult error, e.hook = .after c toolResult error := by
  simp [Closed, or_and_right, exists_or]

theorem opened_before {c' : κ} {r r' : PyObject} (hook : e.hook = .before c)
    (happ : e.appended = [r.val]) :
    Opened (log ++ [e]) c' r' ↔ Opened log c' r' ∨ c' = c ∧ r' = r := by
  rw [opened_concat, hook, happ]
  simp [PyObject.val_inj, eq_comm]

theorem closed_before {c' : κ} (hook : e.hook = .before c) :
    Closed (log ++ [e]) c' ↔ Closed log c' := by
  rw [closed_concat, hook]
  simp

theorem opened_after {c' : κ} {r toolResult error : PyObject}
    (hook : e.hook = .after c toolResult error) : Opened (log ++ [e]) c' r ↔ Opened log c' r := by
  rw [opened_concat, hook]
  simp

theorem closed_after {c' : κ} {toolResult error : PyObject}
    (hook : e.hook = .after c toolResult error) :
    Closed (log ++ [e]) c' ↔ Closed log c' ∨ c' = c := by
  rw [closed_concat, hook]
  simp [eq_comm]

variable [DecidableEq κ]

theorem mem_hooks {b : Bool} :
    b ∈ hooks log c ↔ ∃ e ∈ log, e.hook.context = c ∧ e.hook.isBefore = b := by
  simp [hooks, and_assoc]

/-- The hooks of a context depend on the hooks that have fired only. -/
theorem hooks_eq (log : List (Event κ)) (c : κ) : hooks log c =
    ((log.map Event.hook).filter fun hook => hook.context = c).map Hook.isBefore := by
  rw [hooks, List.filter_map, List.map_map]
  rfl

/-- Each event is one of its context. -/
theorem hooks_concat : hooks (log ++ [e]) c =
    hooks log c ++ if e.hook.context = c then [e.hook.isBefore] else [] := by
  rw [hooks, List.filter_append, List.map_append, hooks]
  congr 1
  split
  next h => simp [h]
  next h => simp [h]

theorem Once.of_concat (h : Once (log ++ [e])) : Once log := by
  intro c
  have hc := h c
  rw [hooks_concat] at hc
  exact (List.prefix_append _ _).trans hc

/-- What can come before the last hook of a context. -/
theorem Once.hooks_eq (h : Once (log ++ [e])) (hc : e.hook.context = c) :
    hooks log c = if e.hook.isBefore then [] else [true] := by
  have hprefix := h c
  rw [hooks_concat, if_pos hc] at hprefix
  generalize hooks log c = l at hprefix ⊢
  obtain ⟨rest, hrest⟩ := hprefix
  match l, hrest with
  | [], hrest => rw [if_pos (List.cons.inj hrest).1]
  | [b], hrest =>
      obtain ⟨hb, hrest⟩ := List.cons.inj hrest
      have hafter : e.hook.isBefore = false := (List.cons.inj hrest).1
      rw [hb, hafter]
      rfl
  | b :: b' :: l, hrest =>
      have hlength := congrArg List.length hrest
      simp at hlength

/-- Nothing has come before the first hook of a context. -/
theorem Once.before (h : Once (log ++ [e])) (he : e.hook = .before c) :
    (∀ r, ¬ Opened log c r) ∧ ¬ Closed log c := by
  have hnil : hooks log c = [] := (h.hooks_eq (he ▸ rfl)).trans (by rw [he]; rfl)
  have hnone : ∀ e' ∈ log, e'.hook.context ≠ c := by
    intro e' he' hcontext
    have hmem := mem_hooks.mpr ⟨e', he', hcontext, rfl⟩
    rw [hnil] at hmem
    cases hmem
  constructor
  · rintro r ⟨e', he', hook, _⟩
    exact hnone e' he' (hook ▸ rfl)
  · rintro ⟨e', he', _, _, hook⟩
    exact hnone e' he' (hook ▸ rfl)

/-- The second hook comes after the first. -/
theorem Once.after {toolResult error : PyObject} (h : Once (log ++ [e]))
    (he : e.hook = .after c toolResult error) :
    (∃ e' ∈ log, e'.hook = .before c) ∧ ¬ Closed log c := by
  have hone : hooks log c = [true] := (h.hooks_eq (he ▸ rfl)).trans (by rw [he]; rfl)
  constructor
  · obtain ⟨e', he', hcontext, hbefore⟩ := mem_hooks.mp (hone ▸ List.mem_singleton_self true)
    refine ⟨e', he', ?_⟩
    cases hook : e'.hook with
    | before c' =>
        rw [hook] at hcontext
        exact congrArg Hook.before hcontext
    | after _ _ _ => rw [hook] at hbefore; cases hbefore
  · rintro ⟨e', he', _, _, hook⟩
    have hmem : false ∈ hooks log c := mem_hooks.mpr ⟨e', he', by rw [hook]; rfl, by rw [hook]; rfl⟩
    rw [hone] at hmem
    cases List.mem_singleton.mp hmem

end

/-! ## One step -/

/-- What `_after` appends for a failure, or for none, of a call with this record. -/
def Answers (a : Adapter P) (r : PyValue) (failed : Option PyValue) (appended : List PyValue) :
    Prop :=
  match failed with
  | none => appended = []
  | some _ => ∃ corr, appended = [corr] ∧ Corrects a r corr

/-- The text of the failure can be signed. -/
def Printable (P : Platform) (failed : Option PyValue) : Prop :=
  ∀ error, failed = some error → ∃ s, pyStr P error = some s ∧ IsName s

variable {κ : Type}

/-- The record was made for the context, which holds its identifier. -/
structure Holds (a : Adapter P) (w : World κ) (c : κ) (env : Env) (r : PyObject) : Prop where
  proper : env.Proper P
  made : ∃ toolName toolInput, (w.contexts c).toolName = some toolName ∧
    made a env toolName toolInput = .ok r
  actionId : (w.contexts c).actionId = some env.uuid
  drawn : env.uuid ∈ w.drawn

/-- What a context holds is kept while its name and its identifier are. -/
theorem Holds.mono {w w' : World κ} {c : κ} (h : Holds a w c env r)
    (hname : (w'.contexts c).toolName = (w.contexts c).toolName)
    (hid : (w'.contexts c).actionId = (w.contexts c).actionId)
    (hdrawn : ∀ id ∈ w.drawn, id ∈ w'.drawn) : Holds a w' c env r where
  proper := h.proper
  made := by rw [hname]; exact h.made
  actionId := hid.trans h.actionId
  drawn := hdrawn _ h.drawn

variable [DecidableEq κ] {w w' : World κ} {e : Event κ} {c : κ}

/-- Every hook draws an identifier. -/
@[simp] theorem drawn_fire (a : Adapter P) (env : Env) (w : World κ) (hook : Hook κ) :
    (fire a env w hook).2.drawn = env.uuid :: w.drawn := by
  cases hook with
  | before c => rfl
  | after c toolResult error => rfl

/-- Any hook can fire, with any new identifier. -/
theorem exists_step (a : Adapter P) (henv : env.Proper P) (w : World κ)
    (hnew : env.uuid ∉ w.drawn) (hook : Hook κ) :
    ∃ appended, (machine a).step w ⟨hook, (fire a env w hook).1, appended⟩
      (fire a env w hook).2 := by
  have hsink : w.state.sink <+: (fire a env w hook).2.state.sink := by
    cases hook with
    | before c => exact sink_before
    | after c toolResult error => exact sink_after
  obtain ⟨appended, happ⟩ := hsink
  exact ⟨appended, env, henv, hnew, rfl, happ.symm⟩

/-- A `_before` that returns puts its record in flight. -/
theorem step_before (h : (machine a).step w e w') (hook : e.hook = .before c)
    (hok : e.ended = .ok ()) (hcall : (w.contexts c).IsCall) :
    ∃ env r, env.uuid ∉ w.drawn ∧ e.appended = [r.val] ∧ Holds a w' c env r ∧
      w'.drawn = env.uuid :: w.drawn ∧
      w'.state.inflight = w.state.inflight.insert env.uuid r ∧
      w'.contexts = Function.update w.contexts c ((w.contexts c).setActionId env.uuid) := by
  obtain ⟨env, henv, hnew, hfire, hsink⟩ := h
  obtain ⟨toolName, hname⟩ := hcall.toolName
  obtain ⟨toolInput, hinput⟩ := hcall.toolInput
  rw [hook, fire, runFrom_before hname hinput, hok] at hfire
  cases hr : made a env toolName toolInput with
  | error err =>
      rw [hr] at hfire
      cases (Prod.mk.inj hfire).1
  | ok r =>
      simp only [hr] at hfire
      obtain ⟨-, rfl⟩ := Prod.mk.inj hfire
      refine ⟨env, r, hnew, (List.append_cancel_left hsink).symm, ?_, rfl, rfl, rfl⟩
      refine ⟨henv, ⟨toolName, toolInput, ?_, hr⟩, ?_, List.mem_cons_self⟩
      · simpa using hname
      · simpa using Context.actionId_setActionId hcall.keeps

/-- An `_after` takes the record out and answers the failure. -/
theorem step_after {toolResult error : PyObject}
    (hsha : ∀ data, (P.sha256 data).length = 32)
    (hsign : ∀ data, P.verify (P.publicKey a.privateKey) (P.sign a.privateKey data) data = true)
    (h : (machine a).step w e w') (hook : e.hook = .after c toolResult error)
    (hr : Holds a w c env r) (hprior : w.state.inflight.lookup env.uuid = some r)
    (hprints : Printable P (failure error.val toolResult.val)) :
    e.ended = .ok () ∧ Answers a r.val (failure error.val toolResult.val) e.appended ∧
      (∃ id, w'.drawn = id :: w.drawn) ∧
      w'.state.inflight = w.state.inflight.erase env.uuid ∧
      w'.contexts = Function.update w.contexts c ((w.contexts c).finished toolResult error) := by
  obtain ⟨env', henv', hnew, hfire, hsink⟩ := h
  obtain ⟨toolName, toolInput, hname, hmade⟩ := hr.made
  have hne : env.uuid ≠ env'.uuid := fun heq => hnew (heq ▸ hr.drawn)
  rw [hook, fire, runFrom_after (Context.toolName_finished.trans hname)
    Context.toolResult_finished (Context.actionId_finished.trans hr.actionId)
    hr.proper.uuid_ne_nil hprior, Context.error_finished] at hfire
  cases hf : failure error.val toolResult.val with
  | none =>
      simp only [hf] at hfire
      obtain ⟨hended, rfl⟩ := Prod.mk.inj hfire
      refine ⟨hended.symm, ?_, ⟨_, rfl⟩, rfl, rfl⟩
      exact List.append_cancel_left (hsink.symm.trans (List.append_nil _).symm)
  | some v =>
      obtain ⟨reason, hs, hreason⟩ := hprints v hf
      obtain ⟨corr, hcorr⟩ := (exists_corrected hr.proper henv' hsha hmade).mpr hreason
      simp only [hf, hs, hcorr] at hfire
      obtain ⟨hended, rfl⟩ := Prod.mk.inj hfire
      refine ⟨hended.symm, ⟨corr.val, ?_, ?_⟩, ⟨_, rfl⟩, rfl, rfl⟩
      · exact (List.append_cancel_left hsink).symm
      · exact corrects_of_corrected hsign hmade hcorr hne

variable {log : List (Event κ)}

/-- The context has its record under way, and holds this identifier. -/
def UnderWay (log : List (Event κ)) (w : World κ) (c : κ) (id : PyStr) (r : PyObject) : Prop :=
  Opened log c r ∧ ¬ Closed log c ∧ (w.contexts c).actionId = some id

/-- The map has what the contexts have under way. -/
def InFlight (log : List (Event κ)) (w : World κ) : Prop :=
  ∃ under, Tracks w.state.inflight under ∧
    ∀ c id r, under c = some (id, r) ↔ UnderWay log w c id r

section

variable {id : PyStr} {r : PyObject}

omit [DecidableEq κ] in
/-- What is in flight is under way in some context. -/
theorem InFlight.lookup (h : InFlight log w) :
    w.state.inflight.lookup id = some r ↔ ∃ c, UnderWay log w c id r := by
  obtain ⟨under, htracks, hunder⟩ := h
  rw [htracks.lookup]
  exact exists_congr fun c => hunder c id r

/-- A `_before` with an identifier that no context holds. -/
theorem InFlight.before (h : InFlight log w) (honce : Once (log ++ [e])) (hook : e.hook = .before c)
    (happ : e.appended = [r.val])
    (hnew : ∀ c' r', Opened log c' r' → (w.contexts c').actionId ≠ some id)
    (hinflight : w'.state.inflight = w.state.inflight.insert id r)
    (hself : (w'.contexts c).actionId = some id)
    (hother : ∀ c', c' ≠ c → w'.contexts c' = w.contexts c') : InFlight (log ++ [e]) w' := by
  obtain ⟨under, htracks, hunder⟩ := h
  obtain ⟨hnone, hopen⟩ := honce.before hook
  have hc : under c = none := by
    refine Option.eq_none_iff_forall_ne_some.mpr fun p hp => ?_
    exact hnone p.2 ((hunder c p.1 p.2).mp hp).1
  have hfresh (c' : κ) (r' : PyObject) : under c' ≠ some (id, r') := by
    intro hp
    obtain ⟨hr', _, heq⟩ := (hunder c' id r').mp hp
    exact hnew c' r' hr' heq
  refine ⟨_, hinflight ▸ htracks.insert hc hfresh, fun c' id' r' => ?_⟩
  rw [update_eq_some, hunder, UnderWay, UnderWay, opened_before hook happ, closed_before hook]
  rcases eq_or_ne c' c with rfl | hne
  · simp [hnone, hopen, hself, eq_comm, and_comm]
  · simp [hne, hother c' hne]

/-- An `_after` of a context that has its record under way. -/
theorem InFlight.after {toolResult error : PyObject} (h : InFlight log w)
    (hook : e.hook = .after c toolResult error) (hc : UnderWay log w c id r)
    (hinflight : w'.state.inflight = w.state.inflight.erase id)
    (hsame : ∀ c', (w'.contexts c').actionId = (w.contexts c').actionId) :
    InFlight (log ++ [e]) w' := by
  obtain ⟨under, htracks, hunder⟩ := h
  refine ⟨_, hinflight ▸ htracks.erase ((hunder c id r).mpr hc), fun c' id' r' => ?_⟩
  rw [update_eq_some, hunder, UnderWay, UnderWay, opened_after hook, closed_after hook, hsame]
  tauto

end

/-- What every run keeps.  The contexts that have had `_before` hold the identifiers
of their records, which have been drawn, and the map has those of them that have not
had `_after`. -/
structure Inv (a : Adapter P) (log : List (Event κ)) (w : World κ) : Prop where
  isCall : ∀ c, (w.contexts c).IsCall
  ended : ∀ e ∈ log, e.ended = .ok ()
  begun : ∀ e ∈ log, ∀ c, e.hook = .before c → ∃ r : PyObject, e.appended = [r.val]
  holds : ∀ c r, Opened log c r → ∃ env, Holds a w c env r
  inflight : InFlight log w
  answered : ∀ e ∈ log, ∀ c toolResult error, e.hook = .after c toolResult error →
    ∃ r, Opened log c r ∧ Answers a r.val (failure error.val toolResult.val) e.appended

theorem Inv.init (h : (machine a).init w) : Inv a [] w := by
  constructor
  case isCall => exact h.2
  case inflight => exact ⟨_, h.1 ▸ Tracks.empty, by simp [UnderWay, Opened]⟩
  all_goals simp [Opened]

/-- A `_before`: its context is a new one, and so is its identifier. -/
theorem Inv.before (h : Inv a log w) (honce : Once (log ++ [e])) (hs : (machine a).step w e w')
    (hook : e.hook = .before c) (hok : e.ended = .ok ()) : Inv a (log ++ [e]) w' := by
  obtain ⟨env, r, hnew, happ, hr, hdrawn, hinflight, hcontexts⟩ :=
    step_before hs hook hok (h.isCall c)
  have hother (c' : κ) (hne : c' ≠ c) : w'.contexts c' = w.contexts c' := by
    rw [hcontexts, Function.update_of_ne hne]
  constructor
  case isCall =>
    intro c'
    rw [hcontexts, Function.update_apply]
    split
    · exact (h.isCall c).setActionId
    · exact h.isCall c'
  case ended =>
    rw [List.forall_mem_append, List.forall_mem_singleton]
    exact ⟨h.ended, hok⟩
  case begun =>
    rw [List.forall_mem_append, List.forall_mem_singleton]
    exact ⟨h.begun, fun _ _ => ⟨r, happ⟩⟩
  case holds =>
    intro c' r' hr'
    rcases (opened_before hook happ).mp hr' with hr' | ⟨rfl, rfl⟩
    · have hne : c' ≠ c := by
        rintro rfl
        exact (honce.before hook).1 r' hr'
      obtain ⟨env', henv'⟩ := h.holds c' r' hr'
      refine ⟨env', henv'.mono (by rw [hother c' hne]) (by rw [hother c' hne]) fun id hid => ?_⟩
      rw [hdrawn]
      exact List.mem_cons_of_mem _ hid
    · exact ⟨env, hr⟩
  case inflight =>
    refine h.inflight.before honce hook happ (fun c' r' hr' heq => ?_) hinflight hr.actionId hother
    -- the identifiers held so far have been drawn
    obtain ⟨env', henv'⟩ := h.holds c' r' hr'
    rw [henv'.actionId, Option.some.injEq] at heq
    exact hnew (heq ▸ henv'.drawn)
  case answered =>
    rw [List.forall_mem_append, List.forall_mem_singleton, hook]
    refine ⟨fun e' he' c' toolResult error hook' => ?_, fun _ _ _ hook' => by cases hook'⟩
    obtain ⟨r', hr', hans⟩ := h.answered e' he' c' toolResult error hook'
    exact ⟨r', (opened_before hook happ).mpr (Or.inl hr'), hans⟩

/-- When `_after` comes, its context has its record under way. -/
theorem Inv.underWay {toolResult error : PyObject} (h : Inv a log w)
    (honce : Once (log ++ [e])) (hook : e.hook = .after c toolResult error) :
    ∃ env r, Holds a w c env r ∧ UnderWay log w c env.uuid r := by
  obtain ⟨⟨e₀, he₀, hook₀⟩, hopen⟩ := honce.after hook
  obtain ⟨r, happ₀⟩ := h.begun e₀ he₀ c hook₀
  have hr : Opened log c r := ⟨e₀, he₀, hook₀, happ₀⟩
  obtain ⟨env, hholds⟩ := h.holds c r hr
  exact ⟨env, r, hholds, hr, hopen, hholds.actionId⟩

/-- An `_after`: it takes out what its context has under way. -/
theorem Inv.after {toolResult error : PyObject} (hsha : ∀ data, (P.sha256 data).length = 32)
    (hsign : ∀ data, P.verify (P.publicKey a.privateKey) (P.sign a.privateKey data) data = true)
    (h : Inv a log w) (honce : Once (log ++ [e])) (hs : (machine a).step w e w')
    (hook : e.hook = .after c toolResult error)
    (hprints : Printable P (failure error.val toolResult.val)) : Inv a (log ++ [e]) w' := by
  obtain ⟨env, r, hholds, hunder⟩ := h.underWay honce hook
  obtain ⟨hok, hans, ⟨id', hdrawn⟩, hinflight, hcontexts⟩ :=
    step_after hsha hsign hs hook hholds (h.inflight.lookup.mpr ⟨c, hunder⟩) hprints
  have hactionId (c' : κ) : (w'.contexts c').actionId = (w.contexts c').actionId := by
    rw [hcontexts, Function.update_apply]
    split
    next heq => rw [heq, Context.actionId_finished]
    next => rfl
  have htoolName (c' : κ) : (w'.contexts c').toolName = (w.contexts c').toolName := by
    rw [hcontexts, Function.update_apply]
    split
    next heq => rw [heq, Context.toolName_finished]
    next => rfl
  constructor
  case isCall =>
    intro c'
    rw [hcontexts, Function.update_apply]
    split
    · exact (h.isCall c).finished
    · exact h.isCall c'
  case ended =>
    rw [List.forall_mem_append, List.forall_mem_singleton]
    exact ⟨h.ended, hok⟩
  case begun =>
    rw [List.forall_mem_append, List.forall_mem_singleton, hook]
    exact ⟨h.begun, fun _ hook' => by cases hook'⟩
  case holds =>
    intro c' r' hr'
    obtain ⟨env', henv'⟩ := h.holds c' r' ((opened_after hook).mp hr')
    refine ⟨env', henv'.mono (htoolName c') (hactionId c') fun id hid => ?_⟩
    rw [hdrawn]
    exact List.mem_cons_of_mem _ hid
  case inflight => exact h.inflight.after hook hunder hinflight hactionId
  case answered =>
    rw [List.forall_mem_append, List.forall_mem_singleton, hook]
    refine ⟨fun e' he' c' toolResult' error' hook' => ?_, fun c' _ _ hook' => ?_⟩
    · obtain ⟨r', hr', hans'⟩ := h.answered e' he' c' toolResult' error' hook'
      exact ⟨r', (opened_after hook).mpr hr', hans'⟩
    · cases hook'
      exact ⟨r, (opened_after hook).mpr hunder.1, hans⟩

/-- Each context has its hooks once and in order, and its `_before` has returned. -/
structure Orderly (log : List (Event κ)) : Prop where
  once : Once log
  returned : ∀ e ∈ log, ∀ c, e.hook = .before c → e.ended = .ok ()

theorem Orderly.of_concat (h : Orderly (log ++ [e])) : Orderly log where
  once := h.once.of_concat
  returned e' he' := h.returned e' (List.mem_append_left _ he')

/-- The text of every failure in the log can be signed. -/
def AllPrintable (P : Platform) (log : List (Event κ)) : Prop :=
  ∀ e ∈ log, ∀ c toolResult error, e.hook = .after c toolResult error →
    Printable P (failure error.val toolResult.val)

/-- The invariant holds along every run. -/
theorem Inv.of_run (hsha : ∀ data, (P.sha256 data).length = 32)
    (hsign : ∀ data, P.verify (P.publicKey a.privateKey) (P.sign a.privateKey data) data = true)
    (hrun : Run (machine a) log w) : Orderly log ∧ AllPrintable P log → Inv a log w := by
  refine hrun.invariant (I := fun log w => Orderly log ∧ AllPrintable P log → Inv a log w) ?_ ?_
  · intro w hw _
    exact .init hw
  · rintro log w e w' ih hs ⟨horder, hprints⟩
    have hinv := ih ⟨horder.of_concat, fun e' he' => hprints e' (List.mem_append_left _ he')⟩
    have hmem : e ∈ log ++ [e] := List.mem_append_right _ (List.mem_singleton_self e)
    cases hook : e.hook with
    | before c => exact hinv.before horder.once hs hook (horder.returned e hmem c hook)
    | after c toolResult error =>
        exact hinv.after hsha hsign horder.once hs hook (hprints e hmem c _ _ hook)

end

namespace Sample

open Adapters.Sample

/-- A context before its call. -/
def context : Context where
  toolName := some (lit "search")
  toolInput := some arguments

/-- Such contexts, and nothing in flight. -/
def start (κ : Type) : World κ where
  state := ⟨∅, []⟩
  contexts _ := context
  drawn := []

section

variable {κ : Type}

/-- Every context is one of the sample's call. -/
def Ready (w : World κ) : Prop :=
  ∀ c, (w.contexts c).toolName = some (lit "search") ∧ (w.contexts c).toolInput = some arguments

theorem ready_start : Ready (start κ) := fun _ => ⟨rfl, rfl⟩

variable [DecidableEq κ]

theorem start_init : (machine adapter).init (start κ) :=
  ⟨rfl, fun _ => ⟨⟨_, rfl⟩, ⟨_, rfl⟩, rfl⟩⟩

/-- A hook changes neither the name nor the input of any context. -/
theorem Ready.fire {w : World κ} (h : Ready w) (env : Env) (hook : Hook κ) :
    Ready (fire adapter env w hook).2 := by
  intro c
  cases hook with
  | before c' =>
      rcases eq_or_ne c c' with rfl | hne
      · obtain ⟨hname, hinput⟩ := h c
        rw [CrewAI.fire, runFrom_before hname hinput]
        cases made adapter env (lit "search") arguments <;> simp [hname, hinput]
      · have hother : (CrewAI.fire adapter env w (.before c')).2.contexts c = w.contexts c :=
          Function.update_of_ne hne _ _
        rw [hother]
        exact h c
  | after c' toolResult error =>
      rcases eq_or_ne c c' with rfl | hne
      · simpa [CrewAI.fire] using h c
      · have hother : (CrewAI.fire adapter env w (.after c' toolResult error)).2.contexts c =
            w.contexts c := Function.update_of_ne hne _ _
        rw [hother]
        exact h c

/-- The hook before the sample's call returns. -/
theorem Ready.before_returns {w : World κ} (h : Ready w) {env : Env} (henv : env.Proper platform)
    (c : κ) : (CrewAI.fire adapter env w (.before c)).1 = .ok () := by
  obtain ⟨hname, hinput⟩ := h c
  obtain ⟨r, hr⟩ : ∃ r, made adapter env (lit "search") arguments = .ok r :=
    (exists_made henv).mpr recordable
  rw [CrewAI.fire, runFrom_before hname hinput, hr]
  rfl

end

/-- One context, during its call. -/
def during : World Unit := (fire adapter env (start Unit) (.before ())).2

theorem step_during :
    ∃ appended, (machine adapter).step (start Unit) ⟨.before (), .ok (), appended⟩ during := by
  have h := exists_step adapter env_proper (start Unit) List.not_mem_nil (.before ())
  rwa [ready_start.before_returns env_proper, ← during] at h

/-- The call, which ends with this error. -/
theorem exists_run (error : PyObject) : ∃ e₁ e₂ w, e₂.hook = .after () .none error ∧
    Orderly [e₁, e₂] ∧ AllPrintable platform [e₁] ∧ Run (machine adapter) [e₁] during ∧
      (machine adapter).step during e₂ w := by
  obtain ⟨s₁, h₁⟩ := step_during
  have hnew : env'.uuid ∉ during.drawn := by
    rw [during, drawn_fire]
    decide +kernel
  obtain ⟨ended, s₂, w, h₂⟩ : ∃ ended s₂ w,
      (machine adapter).step during ⟨.after () .none error, ended, s₂⟩ w := by
    obtain ⟨s₂, h₂⟩ := exists_step adapter env'_proper during hnew (.after () .none error)
    exact ⟨_, s₂, _, h₂⟩
  have hrun := (Run.start start_init).tail h₁
  refine ⟨_, _, _, rfl, ⟨fun c => ?_, ?_⟩, ?_, hrun, h₂⟩
  · exact List.prefix_rfl
  · simp
  · simp [AllPrintable]

end Sample

end Corrlog.CrewAI
