import Mathlib.Data.List.Find

/-!
# The first of each kind

Elements are told apart by a test `same`.  `firsts` leaves of a list the first
element of each kind.  A list that takes an element only if it has none of its kind
is `firsts` of all that were offered (`firsts_concat`, `any_firsts`), and a search
that does not tell elements of one kind apart finds the same in both
(`find?_firsts`).
-/

namespace Linear

variable {α β : Type} {same : α → α → Bool}

/-- The list without every element after the first of its kind. -/
def firsts (same : α → α → Bool) : List α → List α
  | [] => []
  | a :: l => a :: (firsts same l).filter fun b => !same a b

theorem firsts_cons (a : α) (l : List α) :
    firsts same (a :: l) = a :: (firsts same l).filter fun b => !same a b := rfl

theorem firsts_sublist (l : List α) : (firsts same l).Sublist l := by
  induction l with
  | nil => exact .slnil
  | cons a l ih => exact (List.filter_sublist.trans ih).cons_cons a

/-- No two are of one kind. -/
theorem pairwise_firsts (l : List α) : (firsts same l).Pairwise fun a b => same a b = false := by
  induction l with
  | nil => exact .nil
  | cons a l ih =>
      refine .cons (fun b hb => ?_) (ih.sublist List.filter_sublist)
      have hab := (List.mem_filter.mp hb).2
      rwa [Bool.not_eq_true'] at hab

/-- One more element is left out or comes last. -/
theorem firsts_concat (l : List α) (b : α) :
    firsts same (l ++ [b]) = firsts same l ++ if l.any (same · b) then [] else [b] := by
  induction l with
  | nil => rfl
  | cons a l ih =>
      rw [List.cons_append, firsts_cons, ih, firsts_cons, List.any_cons, List.filter_append,
        List.cons_append]
      congr 2
      cases hl : l.any (same · b) with
      | true =>
          rw [Bool.or_true]
          rfl
      | false =>
          rw [Bool.or_false]
          cases hab : same a b with
          | true => exact List.filter_cons_of_neg (by rw [hab]; exact Bool.false_ne_true)
          | false => exact List.filter_cons_of_pos (by rw [hab]; rfl)

/-- An element is of a kind in the list if it is of a kind in `firsts`. -/
theorem any_firsts {l : List α} {b : α}
    (htrans : ∀ a ∈ l, ∀ c ∈ l, same a c = true → same c b = true → same a b = true) :
    (firsts same l).any (same · b) = l.any (same · b) := by
  induction l with
  | nil => rfl
  | cons a l ih =>
      have ih := ih fun x hx y hy =>
        htrans x (List.mem_cons_of_mem _ hx) y (List.mem_cons_of_mem _ hy)
      rw [firsts_cons, List.any_cons, List.any_cons, ← ih, List.any_filter]
      cases hab : same a b with
      | true => rfl
      | false =>
          rw [Bool.false_or, Bool.false_or, Bool.eq_iff_iff, List.any_eq_true, List.any_eq_true]
          refine exists_congr fun c => and_congr_right fun hc => ?_
          rw [Bool.and_eq_true, Bool.not_eq_true', and_iff_right_iff_imp]
          intro hcb
          cases hac : same a c with
          | false => rfl
          | true =>
              have hmem := List.mem_cons_of_mem a ((firsts_sublist l).subset hc)
              rw [htrans a List.mem_cons_self c hmem hac hcb] at hab
              cases hab

/-- A search that does not tell elements of one kind apart. -/
theorem find?_firsts {p : α → Bool} {l : List α}
    (hp : ∀ a ∈ l, ∀ b ∈ l, same a b = true → p a = p b) :
    (firsts same l).find? p = l.find? p := by
  induction l with
  | nil => rfl
  | cons a l ih =>
      have ih := ih fun x hx y hy => hp x (List.mem_cons_of_mem _ hx) y (List.mem_cons_of_mem _ hy)
      rw [firsts_cons, List.find?_cons, List.find?_cons]
      cases ha : p a with
      | true => rfl
      | false =>
          rw [← ih, List.find?_filter]
          refine List.find?_congr fun c hc => ?_
          rw [Bool.decide_and, Bool.decide_eq_true, Bool.decide_eq_true]
          cases hac : same a c with
          | false => rfl
          | true =>
              have hmem := List.mem_cons_of_mem a ((firsts_sublist l).subset hc)
              rw [← hp a List.mem_cons_self c hmem hac, ha]
              rfl

/-- Elements may be replaced if the test does not see it. -/
theorem firsts_map {same' : β → β → Bool} {f : α → β} {l : List α}
    (h : ∀ a ∈ l, ∀ b ∈ l, same' (f a) (f b) = same a b) :
    firsts same' (l.map f) = (firsts same l).map f := by
  induction l with
  | nil => rfl
  | cons a l ih =>
      have ih := ih fun x hx y hy => h x (List.mem_cons_of_mem _ hx) y (List.mem_cons_of_mem _ hy)
      rw [List.map_cons, firsts_cons, ih, firsts_cons, List.map_cons, List.filter_map]
      congr 2
      refine List.filter_congr fun b hb => ?_
      show (!same' (f a) (f b)) = !same a b
      rw [h a List.mem_cons_self b (List.mem_cons_of_mem _ ((firsts_sublist l).subset hb))]

end Linear
