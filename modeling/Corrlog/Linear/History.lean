import Mathlib.Data.List.Chain
import Mathlib.Data.List.Nodup
import Mathlib.Data.List.Infix
import Mathlib.Tactic.Common

/-!
# Linear histories

A history is a list of accepted entries with distinct identifiers that starts
with a first entry and in which every other one follows the one before it.  What
is accepted, first and following are parameters (`Rules`).

* A loop that remembers the entry before and the identifiers seen checks exactly
  this (`history_iff`).
* If an entry determines the identifier it follows, the histories made from the
  entries of one history are its prefixes (`History.prefix_of_subset`).
* If a key of an entry determines the key of the one it follows, the last key
  determines all of them (`keys_eq_of_getLast?`).
* Rules that respect a relation of entries have related histories
  (`History.of_forall₂`).
-/

namespace Linear

variable {α ι κ : Type}

/-- What makes a list a history. -/
structure Rules (α ι : Type) where
  ok : α → Prop
  id : α → ι
  first : α → Prop
  next : α → α → Prop

variable {R : Rules α ι}

/-- A list of accepted entries, distinct, each following the one before it. -/
structure History (R : Rules α ι) (l : List α) : Prop where
  ne_nil : l ≠ []
  ok : ∀ a ∈ l, R.ok a
  nodup : (l.map R.id).Nodup
  first : ∀ a ∈ l.head?, R.first a
  next : l.IsChain R.next

/-! ## Checking -/

/-- What an entry must be, given the one before it. -/
def Rules.after (R : Rules α ι) : Option α → α → Prop
  | none, b => R.first b
  | some a, b => R.next a b

/-- The conditions a loop checks, given the entry before and the identifiers
seen. -/
def Continues (R : Rules α ι) : Option α → List ι → List α → Prop
  | _, _, [] => True
  | prev, seen, a :: l =>
      R.ok a ∧ R.id a ∉ seen ∧ R.after prev a ∧ Continues R (some a) (R.id a :: seen) l

theorem continues_iff {prev : Option α} {seen : List ι} {l : List α} :
    Continues R prev seen l ↔
      (∀ a ∈ l, R.ok a) ∧ (l.map R.id).Nodup ∧ (∀ a ∈ l, R.id a ∉ seen) ∧
        (∀ a ∈ l.head?, R.after prev a) ∧ l.IsChain R.next := by
  induction l generalizing prev seen with
  | nil => simp [Continues]
  | cons a l ih =>
      rw [Continues, ih]
      rw [List.isChain_cons, List.map_cons, List.nodup_cons, List.forall_mem_cons,
        List.forall_mem_cons,
        List.mem_map]
      constructor
      · rintro ⟨hok, hseen, hafter, hoks, hnd, hnew, hnext, hch⟩
        refine ⟨⟨hok, hoks⟩, ⟨?_, hnd⟩, ⟨hseen, fun b hb hs => ?_⟩, ?_, hnext, hch⟩
        · rintro ⟨b, hb, he⟩
          exact hnew b hb (he ▸ List.mem_cons_self)
        · exact hnew b hb (List.mem_cons_of_mem _ hs)
        · rintro b hb
          cases hb
          exact hafter
      · rintro ⟨⟨hok, hoks⟩, ⟨hnew, hnd⟩, ⟨hseen, hseens⟩, hafter, hnext, hch⟩
        refine ⟨hok, hseen, hafter a rfl, hoks, hnd, fun b hb hs => ?_, hnext, hch⟩
        rcases List.mem_cons.mp hs with he | hs
        · exact hnew ⟨b, hb, he⟩
        · exact hseens b hb hs

/-- The loop accepts the histories. -/
theorem history_iff {l : List α} : History R l ↔ l ≠ [] ∧ Continues R none [] l := by
  rw [continues_iff]
  constructor
  · intro h
    exact ⟨h.ne_nil, h.ok, h.nodup, fun _ _ => List.not_mem_nil, h.first, h.next⟩
  · rintro ⟨hne, hok, hnd, _, hfirst, hnext⟩
    exact ⟨hne, hok, hnd, hfirst, hnext⟩

/-! ## Prefixes -/

theorem History.initial {A B : List α} (hA : History R A) (hne : B ≠ []) (h : B <+: A) :
    History R B where
  ne_nil := hne
  ok a ha := hA.ok a (h.subset ha)
  nodup := hA.nodup.sublist (h.sublist.map _)
  first a ha := by
    obtain ⟨t, rfl⟩ := h
    cases B with
    | nil => exact absurd rfl hne
    | cons b B => exact hA.first a ha
  next := hA.next.prefix h

section

variable {pred : α → Option ι} (hfirst : ∀ a, R.ok a → R.first a → pred a = none)
  (hnext : ∀ a b, R.ok a → R.ok b → R.next a b → pred b = some (R.id a))

include hfirst hnext

/-- An entry that follows another one in some history follows it in this one. -/
theorem History.next_eq {A p t : List α} {a b : α} (hA : History R A) (hsplit : A = p ++ a :: t)
    (hb : b ∈ A) (hab : R.next a b) : ∃ u, t = b :: u := by
  have ha : a ∈ A := hsplit ▸ List.mem_append_right _ List.mem_cons_self
  have hpred := hnext a b (hA.ok a ha) (hA.ok b hb) hab
  obtain ⟨q, u, hq⟩ := List.append_of_mem hb
  rcases List.eq_nil_or_concat q with rfl | ⟨q, c, rfl⟩
  · -- the first entry follows none
    rw [hfirst b (hA.ok b hb) (hA.first b (by rw [hq]; rfl))] at hpred
    cases hpred
  · rw [List.concat_eq_append, List.append_assoc, List.singleton_append] at hq
    have hc : c ∈ A := hq ▸ List.mem_append_right _ List.mem_cons_self
    have hcb : R.next c b := by
      have hch := hA.next
      rw [hq, List.isChain_append] at hch
      exact (List.isChain_cons_cons.mp hch.2.1).1
    -- the entry before `b` has the identifier of `a`, and so is `a`
    rw [hnext c b (hA.ok c hc) (hA.ok b hb) hcb, Option.some.injEq] at hpred
    have hca : c = a := List.inj_on_of_nodup_map hA.nodup hc ha hpred
    have hnd : A.Nodup := hA.nodup.of_map
    rw [hsplit, List.nodup_append] at hnd
    have hnot : a ∉ p := fun h => hnd.2.2 a h a List.mem_cons_self rfl
    have hnot' : a ∉ t := (List.nodup_cons.mp hnd.2.1).1
    rw [hsplit, hca, eq_comm] at hq
    exact ⟨u, ((List.append_cons_inj_of_notMem hnot hnot').mp hq.symm).2.2⟩

theorem History.suffix_prefix {A p t l : List α} {a : α} (hA : History R A)
    (hsplit : A = p ++ a :: t) (hl : (a :: l).IsChain R.next) (hsub : ∀ b ∈ l, b ∈ A) :
    l <+: t := by
  induction l generalizing p a t with
  | nil => exact List.nil_prefix
  | cons b l ih =>
      obtain ⟨hab, hl⟩ := List.isChain_cons_cons.mp hl
      obtain ⟨u, rfl⟩ := hA.next_eq hfirst hnext hsplit (hsub b List.mem_cons_self) hab
      rw [List.prefix_cons_inj]
      refine ih (p := p ++ [a]) ?_ hl fun c hc => hsub c (List.mem_cons_of_mem _ hc)
      rw [hsplit, List.append_assoc, List.singleton_append]

/-- The histories made from the entries of a history are its prefixes. -/
theorem History.prefix_of_subset {A B : List α} (hA : History R A) (hB : History R B)
    (hsub : ∀ b ∈ B, b ∈ A) : B <+: A := by
  cases B with
  | nil => exact absurd rfl hB.ne_nil
  | cons b B =>
      have hb := hsub b List.mem_cons_self
      have hnone := hfirst b (hA.ok b hb) (hB.first b rfl)
      obtain ⟨q, u, hq⟩ := List.append_of_mem hb
      rcases List.eq_nil_or_concat q with rfl | ⟨q, c, rfl⟩
      · rw [hq, List.nil_append, List.prefix_cons_inj]
        exact hA.suffix_prefix hfirst hnext (p := []) hq hB.next
          fun c hc => hsub c (List.mem_cons_of_mem _ hc)
      · -- any other entry follows one
        rw [List.concat_eq_append, List.append_assoc, List.singleton_append] at hq
        have hc : c ∈ A := hq ▸ List.mem_append_right _ List.mem_cons_self
        have hch := hA.next
        rw [hq, List.isChain_append] at hch
        rw [hnext c b (hA.ok c hc) (hA.ok b hb) (List.isChain_cons_cons.mp hch.2.1).1] at hnone
        cases hnone

end

/-! ## Keys -/

/-- The keys of two chains of one length agree if the last ones do. -/
theorem keys_eq_of_getLast? {next : α → α → Prop} {key : α → κ} :
    ∀ {A B : List α}, A.IsChain next → B.IsChain next →
      (∀ a ∈ A, ∀ b ∈ A, ∀ a' ∈ B, ∀ b' ∈ B, next a b → next a' b' → key b = key b' →
        key a = key a') →
      A.length = B.length → A.getLast?.map key = B.getLast?.map key → A.map key = B.map key
  | [], [], _, _, _, _, _ => rfl
  | [], _ :: _, _, _, _, hlen, _ => nomatch hlen
  | _ :: _, [], _, _, _, hlen, _ => nomatch hlen
  | [a], [a'], _, _, _, _, hlast => by
      have hkey : key a = key a' := Option.some.inj hlast
      rw [List.map_singleton, List.map_singleton, hkey]
  | [_], _ :: _ :: _, _, _, _, hlen, _ => nomatch Nat.succ.inj hlen
  | _ :: _ :: _, [_], _, _, _, hlen, _ => nomatch Nat.succ.inj hlen
  | a :: b :: A, a' :: b' :: B, hA, hB, hback, hlen, hlast => by
      obtain ⟨hab, hA⟩ := List.isChain_cons_cons.mp hA
      obtain ⟨hab', hB⟩ := List.isChain_cons_cons.mp hB
      have ih := keys_eq_of_getLast? hA hB
        (fun x hx y hy x' hx' y' hy' => hback x (List.mem_cons_of_mem _ hx) y
          (List.mem_cons_of_mem _ hy) x' (List.mem_cons_of_mem _ hx') y'
          (List.mem_cons_of_mem _ hy'))
        (Nat.succ.inj hlen) (by rwa [List.getLast?_cons_cons, List.getLast?_cons_cons] at hlast)
      have hkey := hback a (by simp) b (by simp) a' (by simp) b' (by simp) hab hab'
        (List.cons.inj ih).1
      rw [List.map_cons, ih, hkey, ← List.map_cons]

/-! ## Related entries -/

/-- Rules that respect a relation of accepted entries respect it for histories. -/
theorem History.of_forall₂ {S : α → α → Prop} (hok : ∀ a b, S a b → R.ok a → R.ok b)
    (hid : ∀ a b, S a b → R.ok a → R.id a = R.id b)
    (hfirst : ∀ a b, S a b → R.ok a → R.first a → R.first b)
    (hnext : ∀ a b c d, S a b → S c d → R.ok a → R.ok c → R.next a c → R.next b d)
    {A B : List α} (h : List.Forall₂ S A B) (hA : History R A) : History R B := by
  have hids : A.map R.id = B.map R.id := by
    have hoks := hA.ok
    clear hA
    induction h with
    | nil => rfl
    | cons hab _ ih =>
        obtain ⟨ha, hoks⟩ := List.forall_mem_cons.mp hoks
        rw [List.map_cons, List.map_cons, hid _ _ hab ha, ih hoks]
  refine ⟨?_, ?_, hids ▸ hA.nodup, ?_, ?_⟩
  · rintro rfl
    cases h
    exact hA.ne_nil rfl
  · have hoks := hA.ok
    clear hids hA
    induction h with
    | nil => exact fun _ hb => absurd hb List.not_mem_nil
    | cons hab _ ih =>
        obtain ⟨ha, hoks⟩ := List.forall_mem_cons.mp hoks
        exact List.forall_mem_cons.mpr ⟨hok _ _ hab ha, ih hoks⟩
  · cases h with
    | nil => exact fun _ hb => nomatch hb
    | cons hab _ =>
        rintro b hb
        cases hb
        exact hfirst _ _ hab (hA.ok _ List.mem_cons_self) (hA.first _ rfl)
  · have hoks := hA.ok
    have hch := hA.next
    clear hids hA
    induction h with
    | nil => exact .nil
    | cons hab h ih =>
        obtain ⟨ha, hoks⟩ := List.forall_mem_cons.mp hoks
        cases h with
        | nil => exact .singleton _
        | cons hcd h =>
            obtain ⟨hac, hch⟩ := List.isChain_cons_cons.mp hch
            exact List.isChain_cons_cons.mpr
              ⟨hnext _ _ _ _ hab hcd ha (hoks _ List.mem_cons_self) hac, ih hoks hch⟩

end Linear
