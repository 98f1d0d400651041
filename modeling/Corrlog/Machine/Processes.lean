import Corrlog.Machine.Run
import Mathlib.Logic.Function.Basic

/-!
# Interleaved processes

Processes share a state, and each has one of its own.  A step is a step of one of
them, and the runs of the machine `processes` are the interleavings.

What a process has done is what the labels of its own steps say (`own`).  A claim about
these and its own state is not touched by the steps of the others, so it is enough to
look at the steps of one process to know what holds after every interleaving
(`Run.processes`).  One that also speaks of the shared state must be kept by the steps of
the others (`Run.processes_shared`).
-/

namespace Machine

variable {ι σ π ε : Type}

/-- The shared state, and that of each process. -/
structure Pool (ι σ π : Type) where
  shared : σ
  procs : ι → π

variable [DecidableEq ι]

/-- Processes that start in given states.  A step of one of them reads and changes the
shared state and its own. -/
def processes (init : σ → Prop) (start : ι → π) (step : ι → σ → π → ε → σ → π → Prop) :
    System (Pool ι σ π) (ι × ε) where
  init s := init s.shared ∧ s.procs = start
  step s e t := ∃ p, step e.1 s.shared (s.procs e.1) e.2 t.shared p ∧
    t.procs = Function.update s.procs e.1 p

/-- A step of one process. -/
theorem Run.process {init : σ → Prop} {start : ι → π} {step : ι → σ → π → ε → σ → π → Prop}
    {log : List (ι × ε)} {s : Pool ι σ π} (h : Run (processes init start step) log s) {i : ι}
    {e : ε} {t : σ} {p : π} (hs : step i s.shared (s.procs i) e t p) :
    Run (processes init start step) (log ++ [(i, e)]) ⟨t, Function.update s.procs i p⟩ :=
  h.tail ⟨p, hs, rfl⟩

/-- The labels of one process. -/
def own (i : ι) (log : List (ι × ε)) : List ε := (log.filter (·.1 = i)).map Prod.snd

@[simp] theorem own_nil (i : ι) : own i ([] : List (ι × ε)) = [] := rfl

theorem own_concat_self (i : ι) (log : List (ι × ε)) (e : ε) :
    own i (log ++ [(i, e)]) = own i log ++ [e] := by
  simp [own]

theorem own_concat_ne {i j : ι} (h : j ≠ i) (log : List (ι × ε)) (e : ε) :
    own i (log ++ [(j, e)]) = own i log := by
  simp [own, h]

/-- What each step keeps of the shared state, and what the steps of a process keep of
what is known of it, holds after every interleaving.  This may speak of the shared state,
and the steps of the others must then keep it too. -/
theorem Run.processes_shared {init : σ → Prop} {start : ι → π}
    {step : ι → σ → π → ε → σ → π → Prop} {G : List (ι × ε) → σ → Prop}
    {A : ι → List ε → σ → π → Prop} (hinit : ∀ s, init s → G [] s ∧ ∀ i, A i [] s (start i))
    (hstep : ∀ i log s p e s' p', G log s → A i (own i log) s p → step i s p e s' p' →
      G (log ++ [(i, e)]) s' ∧ A i (own i log ++ [e]) s' p' ∧
        ∀ j labels q, A j labels s q → A j labels s' q)
    {log : List (ι × ε)} {s : Pool ι σ π} (h : Run (processes init start step) log s) :
    G log s.shared ∧ ∀ i, A i (own i log) s.shared (s.procs i) := by
  refine h.invariant
    (I := fun log s => G log s.shared ∧ ∀ i, A i (own i log) s.shared (s.procs i)) ?_ ?_
  · rintro s ⟨hs, hprocs⟩
    obtain ⟨hG, hA⟩ := hinit s.shared hs
    exact ⟨hG, fun i => hprocs ▸ hA i⟩
  · rintro log s ⟨i, e⟩ t ⟨hG, hA⟩ ⟨p, hs, hprocs⟩
    obtain ⟨hG', hA', hothers⟩ := hstep i log s.shared (s.procs i) e t.shared p hG (hA i) hs
    refine ⟨hG', fun j => ?_⟩
    rw [hprocs]
    rcases eq_or_ne j i with rfl | hne
    · rw [own_concat_self, Function.update_self]
      exact hA'
    · rw [own_concat_ne hne.symm, Function.update_of_ne hne]
      exact hothers j _ _ (hA j)

/-- The case where what is known of a process does not speak of the shared state. -/
theorem Run.processes {init : σ → Prop} {start : ι → π} {step : ι → σ → π → ε → σ → π → Prop}
    {G : List (ι × ε) → σ → Prop} {A : ι → List ε → π → Prop} (hinit : ∀ s, init s → G [] s)
    (hstart : ∀ i, A i [] (start i))
    (hstep : ∀ i log s p e s' p', G log s → A i (own i log) p → step i s p e s' p' →
      G (log ++ [(i, e)]) s' ∧ A i (own i log ++ [e]) p')
    {log : List (ι × ε)} {s : Pool ι σ π} (h : Run (processes init start step) log s) :
    G log s.shared ∧ ∀ i, A i (own i log) (s.procs i) := by
  refine h.processes_shared (A := fun i labels _ p => A i labels p)
    (fun s hs => ⟨hinit s hs, hstart⟩) fun i log s p e s' p' hG hA hs => ?_
  obtain ⟨hG', hA'⟩ := hstep i log s p e s' p' hG hA hs
  exact ⟨hG', hA', fun _ _ _ => id⟩

end Machine
