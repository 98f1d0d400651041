import Mathlib.Data.List.AList
import Mathlib.Logic.Function.Basic
import Mathlib.Tactic.Common

/-!
# What is in flight

Parties share a table in which each puts what it has begun, under a token of its
own, and from which it takes it again.  `Tracks` relates the table to what each
party has under way: no two have the same token, and the table has nothing else.
It is kept when a party begins under a new token (`Tracks.insert`) and when one
ends (`Tracks.erase`).
-/

namespace Machine

variable {ι κ ρ : Type} [DecidableEq ι]

/-- The table has what the parties have under way, each under its own token. -/
structure Tracks (table : AList fun _ : ι => ρ) (under : κ → Option (ι × ρ)) : Prop where
  distinct : ∀ c c' id r r', under c = some (id, r) → under c' = some (id, r') → c = c'
  lookup : ∀ id r, table.lookup id = some r ↔ ∃ c, under c = some (id, r)

/-- Nothing is in the empty table, and nobody has anything under way. -/
theorem Tracks.empty : Tracks (∅ : AList fun _ : ι => ρ) fun _ : κ => none where
  distinct := by simp
  lookup := by simp

variable [DecidableEq κ] {table : AList fun _ : ι => ρ} {under : κ → Option (ι × ρ)} {c : κ}
  {id : ι} {r : ρ}

omit [DecidableEq ι] in
/-- What is under way after one party has changed. -/
theorem update_eq_some {x : Option (ι × ρ)} {c' : κ} {p : ι × ρ} :
    Function.update under c x c' = some p ↔ c' = c ∧ x = some p ∨ c' ≠ c ∧ under c' = some p := by
  rcases eq_or_ne c' c with rfl | hne
  · simp
  · simp [hne]

/-- A party that has nothing under way begins, under a token that nobody uses. -/
theorem Tracks.insert (h : Tracks table under) (hc : under c = none)
    (hnew : ∀ c' r', under c' ≠ some (id, r')) :
    Tracks (table.insert id r) (Function.update under c (some (id, r))) := by
  constructor
  · intro c₁ c₂ id' r₁ r₂ h₁ h₂
    rcases update_eq_some.mp h₁ with ⟨rfl, he₁⟩ | ⟨_, hc₁⟩
    · rcases update_eq_some.mp h₂ with ⟨rfl, _⟩ | ⟨_, hc₂⟩
      · rfl
      · cases he₁
        exact absurd hc₂ (hnew c₂ r₂)
    · rcases update_eq_some.mp h₂ with ⟨rfl, he₂⟩ | ⟨_, hc₂⟩
      · cases he₂
        exact absurd hc₁ (hnew c₁ r₁)
      · exact h.distinct c₁ c₂ id' r₁ r₂ hc₁ hc₂
  · intro id' r'
    simp only [update_eq_some]
    rcases eq_or_ne id' id with rfl | hne
    · rw [AList.lookup_insert, Option.some.injEq]
      constructor
      · rintro rfl
        exact ⟨c, Or.inl ⟨rfl, rfl⟩⟩
      · rintro ⟨c', ⟨_, he⟩ | ⟨_, hc'⟩⟩
        · cases he
          rfl
        · exact absurd hc' (hnew c' r')
    · rw [AList.lookup_insert_ne hne, h.lookup]
      refine exists_congr fun c' => ⟨fun hc' => Or.inr ⟨?_, hc'⟩, fun hc' => ?_⟩
      · rintro rfl
        cases hc.symm.trans hc'
      · rcases hc' with ⟨_, he⟩ | ⟨_, hc'⟩
        · cases he
          exact absurd rfl hne
        · exact hc'

/-- A party ends, and what it had put in the table is taken out. -/
theorem Tracks.erase (h : Tracks table under) (hc : under c = some (id, r)) :
    Tracks (table.erase id) (Function.update under c none) := by
  have hend {c' : κ} {p : ι × ρ} :
      Function.update under c none c' = some p ↔ c' ≠ c ∧ under c' = some p := by
    simp [update_eq_some]
  constructor
  · intro c₁ c₂ id' r₁ r₂ h₁ h₂
    exact h.distinct c₁ c₂ id' r₁ r₂ (hend.mp h₁).2 (hend.mp h₂).2
  · intro id' r'
    simp only [hend]
    rcases eq_or_ne id' id with rfl | hne
    · rw [AList.lookup_erase]
      refine iff_of_false (Option.some_ne_none r').symm ?_
      -- the token is that of the party that ends
      rintro ⟨c', hc', hunder⟩
      exact hc' (h.distinct c' c id' r' r hunder hc)
    · rw [AList.lookup_erase_ne hne, h.lookup]
      refine exists_congr fun c' => ⟨fun hc' => ⟨?_, hc'⟩, And.right⟩
      rintro rfl
      cases hc.symm.trans hc'
      exact hne rfl

end Machine
