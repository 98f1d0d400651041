import Corrlog.Linear.History

/-!
# Histories that meet

A history is a path that starts at a first entry.  If the key of an entry says
whether it is a first one, and otherwise determines the key of the one before it,
the histories form a forest: two of them that share a key share all keys before it,
at the same places (`History.meet`).  Where they part they part for good.

A history grows at its end by an entry that follows the last one and is new
(`history_concat`).  A log to which only first entries and followers of its own entries
are added is such a forest: each entry is the last one of a history made from the log
(`Grown.exists_history`), and of no other one (`History.eq_of_last`).
-/

namespace Linear

variable {α ι κ : Type} {R : Rules α ι}

/-! ## Growing -/

/-- One more entry. -/
theorem history_concat {A : List α} {a : α} (hA : History R A) :
    History R (A ++ [a]) ↔ R.ok a ∧ R.id a ∉ A.map R.id ∧ ∀ b ∈ A.getLast?, R.next b a := by
  constructor
  · intro h
    have hnd := h.nodup
    rw [List.map_append, List.map_singleton, ← List.concat_eq_append, List.nodup_concat] at hnd
    have hnext := (List.isChain_append.mp h.next).2.2
    refine ⟨h.ok a (List.mem_append_right _ (List.mem_singleton_self a)), hnd.1, fun b hb => ?_⟩
    exact hnext b hb a rfl
  · rintro ⟨hok, hnew, hlast⟩
    constructor
    case ne_nil => exact List.append_ne_nil_of_left_ne_nil hA.ne_nil _
    case ok =>
      rw [List.forall_mem_append, List.forall_mem_singleton]
      exact ⟨hA.ok, hok⟩
    case nodup =>
      rw [List.map_append, List.map_singleton, ← List.concat_eq_append, List.nodup_concat]
      exact ⟨hnew, hA.nodup⟩
    case first =>
      rw [List.head?_append_of_ne_nil _ hA.ne_nil]
      exact hA.first
    case next =>
      refine List.isChain_append.mpr ⟨hA.next, List.isChain_singleton a, fun b hb c hc => ?_⟩
      rw [← Option.some.inj hc]
      exact hlast b hb

/-! ## Meeting -/

/-- What the key of an entry tells: whether it is a first one, and the key of the one
before it. -/
structure Backward (R : Rules α ι) (key : α → κ) (A B : List α) : Prop where
  first : ∀ a ∈ A, ∀ b ∈ B, key a = key b → (R.first a ↔ R.first b)
  next : ∀ a ∈ A, ∀ b ∈ A, ∀ a' ∈ B, ∀ b' ∈ B, R.next a b → R.next a' b' → key b = key b' →
    key a = key a'

variable {key : α → κ} {A B : List α}

theorem Backward.mono {A' B' : List α} (h : Backward R key A B) (hA : A' ⊆ A) (hB : B' ⊆ B) :
    Backward R key A' B' where
  first a ha b hb := h.first a (hA ha) b (hB hb)
  next a ha b hb a' ha' b' hb' := h.next a (hA ha) b (hA hb) a' (hB ha') b' (hB hb')

/-- The last two of a history that ends. -/
theorem History.next_last {p : List α} {a b : α} (h : History R (p ++ [a] ++ [b])) : R.next a b :=
  (List.isChain_append.mp h.next).2.2 a (List.getLast?_concat) b rfl

theorem History.first_of_singleton {a : α} (h : History R [a]) : R.first a := h.first a rfl

theorem History.of_concat {p : List α} {a b : α} (h : History R (p ++ [a] ++ [b])) :
    History R (p ++ [a]) :=
  h.initial (List.append_ne_nil_of_right_ne_nil _ (List.cons_ne_nil _ _)) (List.prefix_append _ _)

variable (hroot : ∀ a b, R.ok a → R.ok b → R.next a b → ¬ R.first b)

include hroot

theorem History.not_first_last {p : List α} {a b : α} (h : History R (p ++ [a] ++ [b])) :
    ¬ R.first b :=
  hroot a b (h.ok a (by simp)) (h.ok b (by simp)) h.next_last

/-- Histories whose last keys agree agree in all keys. -/
theorem History.keys_eq_of_last {p q : List α} {a b : α} (hA : History R (p ++ [a]))
    (hB : History R (q ++ [b])) (hback : Backward R key (p ++ [a]) (q ++ [b]))
    (hkey : key a = key b) : p.map key = q.map key := by
  have hfirst : R.first a ↔ R.first b := hback.first a (by simp) b (by simp) hkey
  induction p using List.reverseRecOn generalizing q a b with
  | nil =>
      rcases List.eq_nil_or_concat q with rfl | ⟨q, d, rfl⟩
      · rfl
      · rw [List.concat_eq_append] at hB
        exact absurd (hfirst.mp hA.first_of_singleton) (hB.not_first_last hroot)
  | append_singleton p c ih =>
      rcases List.eq_nil_or_concat q with rfl | ⟨q, d, rfl⟩
      · exact absurd (hfirst.mpr hB.first_of_singleton) (hA.not_first_last hroot)
      · rw [List.concat_eq_append] at hB hback ⊢
        have hcd : key c = key d := hback.next c (by simp) a (by simp) d (by simp) b (by simp)
          hA.next_last hB.next_last hkey
        have hback' := hback.mono (List.subset_append_left (p ++ [c]) [a])
          (List.subset_append_left (q ++ [d]) [b])
        have hfirst' : R.first c ↔ R.first d := hback'.first c (by simp) d (by simp) hcd
        have ih := ih hA.of_concat hB.of_concat hback' hcd hfirst'
        rw [List.map_append, List.map_append, ih, List.map_singleton, List.map_singleton, hcd]

/-- Histories that share a key share it at one place, and all keys before it. -/
theorem History.meet (hA : History R A) (hB : History R B) (hback : Backward R key A B) {i j : ℕ}
    (hi : i < A.length) (hj : j < B.length) (hkey : key A[i] = key B[j]) :
    i = j ∧ (A.map key).take (i + 1) = (B.map key).take (i + 1) := by
  have htake {l : List α} {n : ℕ} (hn : n < l.length) : l.take n ++ [l[n]] = l.take (n + 1) :=
    List.take_append_getElem hn
  have hhist {l : List α} {n : ℕ} (hn : n < l.length) (hl : History R l) :
      History R (l.take n ++ [l[n]]) :=
    hl.initial (List.append_ne_nil_of_right_ne_nil _ (List.cons_ne_nil _ _))
      (htake hn ▸ List.take_prefix _ _)
  have hsub {l : List α} {n : ℕ} (hn : n < l.length) : l.take n ++ [l[n]] ⊆ l :=
    htake hn ▸ List.take_subset _ _
  have hkeys := (hhist hi hA).keys_eq_of_last hroot (hhist hj hB)
    (hback.mono (hsub hi) (hsub hj)) hkey
  have hij : i = j := by
    have hlen := congrArg List.length hkeys
    rwa [List.length_map, List.length_map, List.length_take_of_le hi.le,
      List.length_take_of_le hj.le] at hlen
  subst hij
  refine ⟨rfl, ?_⟩
  rw [← List.map_take, ← List.map_take, ← htake hi, ← htake hj, List.map_append, List.map_append,
    hkeys, List.map_singleton, List.map_singleton, hkey]

omit hroot

/-! ## Logs -/

/-- A list to which entries were added at the end, each a first one or a follower of an
earlier one. -/
inductive Grown (R : Rules α ι) : List α → Prop
  | nil : Grown R []
  | first {l : List α} {a : α} : Grown R l → R.ok a → R.first a → Grown R (l ++ [a])
  | next {l : List α} {a b : α} : Grown R l → b ∈ l → R.ok a → R.next b a → Grown R (l ++ [a])

variable {l : List α}

theorem Grown.ok (h : Grown R l) : ∀ a ∈ l, R.ok a := by
  induction h with
  | nil => exact List.forall_mem_nil _
  | first _ hok _ ih =>
      rw [List.forall_mem_append, List.forall_mem_singleton]
      exact ⟨ih, hok⟩
  | next _ _ hok _ ih =>
      rw [List.forall_mem_append, List.forall_mem_singleton]
      exact ⟨ih, hok⟩

/-- Each entry is the last one of a history of entries in the order of the list. -/
theorem Grown.exists_history (h : Grown R l) (hnd : (l.map R.id).Nodup) :
    ∀ a ∈ l, ∃ p, (p ++ [a]).Sublist l ∧ History R (p ++ [a]) := by
  induction h with
  | nil => exact List.forall_mem_nil _
  | @first l a _ hok hfirst ih =>
      rw [List.map_append] at hnd
      rw [List.forall_mem_append, List.forall_mem_singleton]
      constructor
      · intro b hb
        obtain ⟨p, hp, hist⟩ := ih (List.nodup_append.mp hnd).1 b hb
        exact ⟨p, hp.trans (List.sublist_append_left _ _), hist⟩
      · refine ⟨[], List.sublist_append_right _ _, List.cons_ne_nil _ _, ?_, ?_, ?_, .singleton a⟩
        · exact List.forall_mem_singleton.mpr hok
        · exact List.nodup_singleton _
        · intro b hb
          exact Option.some.inj hb ▸ hfirst
  | @next l a b _ hb hok hnext ih =>
      rw [List.map_append, List.map_singleton] at hnd
      rw [List.forall_mem_append, List.forall_mem_singleton]
      have ih := ih (List.nodup_append.mp hnd).1
      constructor
      · intro c hc
        obtain ⟨p, hp, hist⟩ := ih c hc
        exact ⟨p, hp.trans (List.sublist_append_left _ _), hist⟩
      · obtain ⟨p, hp, hist⟩ := ih b hb
        have hnew : R.id a ∉ (p ++ [b]).map R.id := by
          intro hmem
          have hmem : R.id a ∈ l.map R.id := (hp.map R.id).subset hmem
          exact (List.nodup_append.mp hnd).2.2 _ hmem _ (List.mem_singleton_self _) rfl
        refine ⟨p ++ [b], hp.append_right [a], (history_concat hist).mpr ⟨hok, hnew, ?_⟩⟩
        intro c hc
        rw [List.getLast?_concat, Option.mem_def, Option.some.injEq] at hc
        exact hc ▸ hnext

/-- If an entry determines the identifier it follows and identifiers are distinct, one
history at most ends with an entry. -/
theorem History.eq_of_last {pred : α → Option ι}
    (hfirst : ∀ a, R.ok a → R.first a → pred a = none)
    (hnext : ∀ a b, R.ok a → R.ok b → R.next a b → pred b = some (R.id a))
    (hnd : (l.map R.id).Nodup) {p q : List α} {a : α} (hp : p ++ [a] ⊆ l) (hq : q ++ [a] ⊆ l)
    (hA : History R (p ++ [a])) (hB : History R (q ++ [a])) : p = q := by
  have hroot (a b : α) (ha : R.ok a) (hb : R.ok b) (hab : R.next a b) : ¬ R.first b := by
    intro hf
    have h := hnext a b ha hb hab
    rw [hfirst b hb hf] at h
    cases h
  have hback : Backward R id (p ++ [a]) (q ++ [a]) := by
    constructor
    case first =>
      rintro b _ c _ rfl
      rfl
    case next =>
      rintro b hb c hc b' hb' c' hc' hbc hbc' rfl
      have h := hnext b c (hA.ok b hb) (hA.ok c hc) hbc
      rw [hnext b' c (hB.ok b' hb') (hA.ok c hc) hbc', Option.some.injEq] at h
      exact List.inj_on_of_nodup_map hnd (hp hb) (hq hb') h.symm
  have hmap := hA.keys_eq_of_last hroot hB hback rfl
  rwa [List.map_id, List.map_id] at hmap

end Linear
