import Mathlib.Tactic.Common

/-!
# Code that may raise

`Code σ ε α` reads and changes a state, and returns or raises.  What it has done
to the state stays done when it raises, also if the exception is caught.
`runFrom` says how it ends and what it leaves, with one equation for each way to
build it.
-/

namespace Machine

/-- Code over a state, with exceptions. -/
abbrev Code (σ ε α : Type) := ExceptT ε (StateM σ) α

variable {σ ε α β : Type}

/-- How the code ends and what it leaves. -/
def runFrom (x : Code σ ε α) (s : σ) : Except ε α × σ := x.run.run s

@[simp] theorem runFrom_pure (a : α) (s : σ) : runFrom (pure a : Code σ ε α) s = (.ok a, s) := rfl

/-- An exception leaves the state as it is. -/
@[simp] theorem runFrom_throw (e : ε) (s : σ) :
    runFrom (throw e : Code σ ε α) s = (.error e, s) := rfl

@[simp] theorem runFrom_get (s : σ) : runFrom (get : Code σ ε σ) s = (.ok s, s) := rfl

/-- A step that only changes the state. -/
@[simp] theorem runFrom_modify (f : σ → σ) (s : σ) :
    runFrom (modify f : Code σ ε PUnit) s = (.ok (), f s) := rfl

/-- A computation without state. -/
@[simp] theorem runFrom_liftExcept (x : Except ε α) (s : σ) :
    runFrom (liftExcept x : Code σ ε α) s = (x, s) := by
  cases x with
  | error e => rfl
  | ok a => rfl

/-- After an exception nothing else runs, and the state is kept. -/
@[simp] theorem runFrom_bind (x : Code σ ε α) (f : α → Code σ ε β) (s : σ) :
    runFrom (x >>= f) s =
      match runFrom x s with
      | (.ok a, s') => runFrom (f a) s'
      | (.error e, s') => (.error e, s') := by
  rw [runFrom, runFrom, ExceptT.run_bind, StateT.run_bind]
  obtain ⟨e | a, s'⟩ := x.run.run s
  · rfl
  · rfl

@[simp] theorem runFrom_map (f : α → β) (x : Code σ ε α) (s : σ) :
    runFrom (f <$> x) s =
      match runFrom x s with
      | (.ok a, s') => (.ok (f a), s')
      | (.error e, s') => (.error e, s') := by
  rw [map_eq_pure_bind, runFrom_bind]
  obtain ⟨e | a, s'⟩ := runFrom x s
  · rfl
  · rfl

/-- A caught exception leaves the state where it was raised. -/
@[simp] theorem runFrom_tryCatch (x : Code σ ε α) (f : ε → Code σ ε α) (s : σ) :
    runFrom (tryCatch x f) s =
      match runFrom x s with
      | (.ok a, s') => (.ok a, s')
      | (.error e, s') => runFrom (f e) s' := by
  have h : (tryCatch x f : Code σ ε α).run.run s =
      StateT.run (x.run >>= fun r => match r with
        | .ok a => pure (.ok a)
        | .error e => (f e).run) s := rfl
  rw [runFrom, runFrom, h, StateT.run_bind]
  obtain ⟨e | a, s'⟩ := x.run.run s
  · rfl
  · rfl

end Machine
