import Corrlog.Python.Str
import Mathlib.Data.List.Sort

/-!
# `sorted`

`sorted(xs, key=f)` orders the items by their keys and keeps the order of items
with equal keys.  If no two items have the same key, the result does not depend
on the order they came in (`sortedBy_eq_of_perm`).

`bytesLe` and `strLe` are Python's orders of `bytes` and of `str`.
-/

namespace Python

/-! ## The order of bytes and of strings -/

/-- `a <= b` for `bytes`. -/
def bytesLe : Bytes → Bytes → Bool
  | [], _ => true
  | _ :: _, [] => false
  | a :: as, b :: bs => decide (a.toNat < b.toNat) || (decide (a = b) && bytesLe as bs)

theorem bytesLe_cons {a b : UInt8} {as bs : Bytes} :
    bytesLe (a :: as) (b :: bs) = true ↔ a.toNat < b.toNat ∨ a = b ∧ bytesLe as bs = true := by
  rw [bytesLe, Bool.or_eq_true, Bool.and_eq_true, decide_eq_true_eq, decide_eq_true_eq]

/-- Any two byte strings are in order. -/
theorem bytesLe_total : ∀ a b : Bytes, bytesLe a b = true ∨ bytesLe b a = true
  | [], _ => Or.inl rfl
  | _ :: _, [] => Or.inr rfl
  | a :: as, b :: bs => by
      simp only [bytesLe_cons]
      rcases Nat.lt_trichotomy a.toNat b.toNat with h | h | h
      · exact Or.inl (Or.inl h)
      · have hab := UInt8.toNat_inj.mp h
        rcases bytesLe_total as bs with h' | h'
        · exact Or.inl (Or.inr ⟨hab, h'⟩)
        · exact Or.inr (Or.inr ⟨hab.symm, h'⟩)
      · exact Or.inr (Or.inl h)

/-- In both orders are only equal ones. -/
theorem bytesLe_antisymm : ∀ {a b : Bytes}, bytesLe a b = true → bytesLe b a = true → a = b
  | [], [], _, _ => rfl
  | [], _ :: _, _, h => by cases h
  | _ :: _, [], h, _ => by cases h
  | a :: as, b :: bs, h, h' => by
      rw [bytesLe_cons] at h h'
      rcases h with h | ⟨rfl, h⟩
      · rcases h' with h' | ⟨rfl, _⟩
        · omega
        · omega
      · rcases h' with h' | ⟨_, h'⟩
        · omega
        · rw [bytesLe_antisymm h h']

theorem bytesLe_trans : ∀ {a b c : Bytes}, bytesLe a b = true → bytesLe b c = true →
    bytesLe a c = true
  | [], _, _, _, _ => rfl
  | _ :: _, [], _, h, _ => by cases h
  | _ :: _, _ :: _, [], _, h => by cases h
  | a :: as, b :: bs, c :: cs, h, h' => by
      rw [bytesLe_cons] at h h' ⊢
      rcases h with h | ⟨rfl, h⟩
      · rcases h' with h' | ⟨rfl, _⟩
        · exact Or.inl (h.trans h')
        · exact Or.inl h
      · rcases h' with h' | ⟨rfl, h'⟩
        · exact Or.inl h'
        · exact Or.inr ⟨rfl, bytesLe_trans h h'⟩

/-- `s <= t` for `str`: code points are compared by their numbers. -/
def strLe : PyStr → PyStr → Bool
  | [], _ => true
  | _ :: _, [] => false
  | a :: as, b :: bs => decide (ord a < ord b) || (decide (a = b) && strLe as bs)

/-! ## Sorting by a key -/

section

variable {κ α : Type} (le : κ → κ → Bool)

/-- `sorted`, on items that carry their keys. -/
def sortedBy (items : List (κ × α)) : List (κ × α) :=
  items.insertionSort fun a b => le a.1 b.1 = true

/-- Sorting loses and adds nothing. -/
theorem sortedBy_perm (items : List (κ × α)) : (sortedBy le items).Perm items :=
  List.perm_insertionSort _ _

/-- Sorting looks at the keys only. -/
theorem sortedBy_map {β : Type} (f : α → β) (items : List (κ × α)) :
    sortedBy le (items.map fun p => (p.1, f p.2)) =
      (sortedBy le items).map fun p => (p.1, f p.2) := by
  refine (List.map_insertionSort (fun a b : κ × α => le a.1 b.1 = true)
    (fun a b : κ × β => le a.1 b.1 = true) (fun p : κ × α => (p.1, f p.2)) items ?_).symm
  exact fun _ _ _ _ => Iff.rfl

variable {le}

/-- Under a total order it puts everything in order. -/
theorem pairwise_sortedBy (htotal : ∀ a b, le a b = true ∨ le b a = true)
    (htrans : ∀ {a b c}, le a b = true → le b c = true → le a c = true) (items : List (κ × α)) :
    (sortedBy le items).Pairwise fun a b => le a.1 b.1 = true := by
  have htot : Std.Total fun a b : κ × α => le a.1 b.1 = true := ⟨fun a b => htotal _ _⟩
  have htr : IsTrans (κ × α) fun a b => le a.1 b.1 = true := ⟨fun _ _ _ => htrans⟩
  exact List.pairwise_insertionSort _ _

/-- With distinct keys the order of the items does not matter. -/
theorem sortedBy_eq_of_perm (htotal : ∀ a b, le a b = true ∨ le b a = true)
    (htrans : ∀ {a b c}, le a b = true → le b c = true → le a c = true)
    (hanti : ∀ {a b}, le a b = true → le b a = true → a = b) {items items' : List (κ × α)}
    (hnd : (items.map Prod.fst).Nodup) (hp : items.Perm items') :
    sortedBy le items = sortedBy le items' := by
  refine List.Perm.eq_of_pairwise (fun a b ha hb hab hba => ?_)
    (pairwise_sortedBy htotal htrans items) (pairwise_sortedBy htotal htrans items')
    ((sortedBy_perm le items).trans (hp.trans (sortedBy_perm le items').symm))
  have ha' := (sortedBy_perm le items).mem_iff.mp ha
  have hb' := hp.mem_iff.mpr ((sortedBy_perm le items').mem_iff.mp hb)
  exact List.inj_on_of_nodup_map hnd ha' hb' (hanti hab hba)

end

end Python
