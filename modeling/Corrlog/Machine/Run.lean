import Mathlib.Data.List.Induction
import Mathlib.Tactic.Common

/-!
# Runs of a state machine

A machine has initial states and labelled steps.  A run is the log of its labels
and the state it ends in.  Several parties that share a state are one machine
whose steps are those of each of them, so its runs are the interleavings.

* What the first states have and each step keeps holds after every run, also if
  it speaks of the log (`Run.invariant`).
* Steps are cut at any place, in particular before and after one label
  (`Steps.at_label`).
* A preorder that contains each step contains what follows a run (`Run.rel`).
-/

namespace Machine

variable {σ ε : Type}

/-- Initial states and labelled steps. -/
structure System (σ ε : Type) where
  init : σ → Prop
  step : σ → ε → σ → Prop

/-- The steps of a log, from one state to another. -/
inductive Steps (M : System σ ε) (s : σ) : List ε → σ → Prop
  | refl : Steps M s [] s
  | tail {log : List ε} {t u : σ} {e : ε} :
      Steps M s log t → M.step t e u → Steps M s (log ++ [e]) u

/-- The steps of a log from an initial state. -/
def Run (M : System σ ε) (log : List ε) (s : σ) : Prop := ∃ s₀, M.init s₀ ∧ Steps M s₀ log s

variable {M : System σ ε}

theorem Run.start {s : σ} (h : M.init s) : Run M [] s := ⟨s, h, .refl⟩

theorem Run.tail {log : List ε} {s t : σ} {e : ε} (h : Run M log s) (hs : M.step s e t) :
    Run M (log ++ [e]) t := by
  obtain ⟨s₀, hi, h⟩ := h
  exact ⟨s₀, hi, h.tail hs⟩

theorem Steps.trans {log log' : List ε} {s t u : σ} (h : Steps M s log t)
    (h' : Steps M t log' u) : Steps M s (log ++ log') u := by
  induction h' with
  | refl => rwa [List.append_nil]
  | tail _ hs ih =>
      rw [← List.append_assoc]
      exact ih.tail hs

theorem Run.trans {log log' : List ε} {s t : σ} (h : Run M log s) (h' : Steps M s log' t) :
    Run M (log ++ log') t := by
  obtain ⟨s₀, hi, h⟩ := h
  exact ⟨s₀, hi, h.trans h'⟩

/-- The last step of a log. -/
theorem Steps.of_concat {log : List ε} {s u : σ} {e : ε} (h : Steps M s (log ++ [e]) u) :
    ∃ t, Steps M s log t ∧ M.step t e u := by
  generalize hl : log ++ [e] = l at h
  cases h with
  | refl => exact absurd hl (List.append_ne_nil_of_right_ne_nil _ (List.cons_ne_nil _ _))
  | tail h hs =>
      obtain ⟨rfl, he⟩ := List.append_inj' hl rfl
      cases he
      exact ⟨_, h, hs⟩

theorem Steps.split {before after : List ε} {s u : σ} (h : Steps M s (before ++ after) u) :
    ∃ t, Steps M s before t ∧ Steps M t after u := by
  induction after using List.reverseRecOn generalizing u with
  | nil => exact ⟨u, by rwa [List.append_nil] at h, .refl⟩
  | append_singleton after e ih =>
      rw [← List.append_assoc] at h
      obtain ⟨v, h, hs⟩ := h.of_concat
      obtain ⟨t, hb, ha⟩ := ih h
      exact ⟨t, hb, ha.tail hs⟩

/-- The step of a label and what comes before and after it. -/
theorem Steps.at_label {before after : List ε} {e : ε} {s v : σ}
    (h : Steps M s (before ++ e :: after) v) :
    ∃ t u, Steps M s before t ∧ M.step t e u ∧ Steps M u after v := by
  rw [List.append_cons] at h
  obtain ⟨u, h, ha⟩ := h.split
  obtain ⟨t, hb, hs⟩ := h.of_concat
  exact ⟨t, u, hb, hs, ha⟩

/-- What holds at first and is kept by each step holds after every run. -/
theorem Run.invariant {I : List ε → σ → Prop} (hinit : ∀ s, M.init s → I [] s)
    (hstep : ∀ log s e t, I log s → M.step s e t → I (log ++ [e]) t) {log : List ε} {s : σ}
    (h : Run M log s) : I log s := by
  obtain ⟨s₀, hi, h⟩ := h
  induction h with
  | refl => exact hinit s₀ hi
  | tail _ hs ih => exact hstep _ _ _ _ ih hs

/-- A preorder that contains each step of every run contains what follows a run. -/
theorem Run.rel {r : σ → σ → Prop} (hrefl : ∀ s, r s s)
    (htrans : ∀ s t u, r s t → r t u → r s u)
    (hstep : ∀ log s e t, Run M log s → M.step s e t → r s t) {log log' : List ε} {s t : σ}
    (h : Run M log s) (h' : Steps M s log' t) : r s t := by
  induction h' with
  | refl => exact hrefl s
  | tail h' hs ih => exact htrans _ _ _ ih (hstep _ _ _ _ (h.trans h') hs)

end Machine
