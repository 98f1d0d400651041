import Corrlog.Core.Render
import Corrlog.Validation.Candidate

/-!
# The whole candidate

`canonical_json` of the candidate, with its own escapes and its own walk over the value.
Besides the numbers it differs from the core in what it raises: a surrogate has another
message, and an integer that is too large another type.

On every value both write the same bytes, or both raise (`renderers_agree`).
-/

namespace Corrlog.Candidate

open Python

/-! ## The code -/

/-- `_ESCAPES`. -/
def escapes : List (ℕ × List Char) :=
  [(0x08, ['\\', 'b']), (0x09, ['\\', 't']), (0x0A, ['\\', 'n']), (0x0C, ['\\', 'f']),
    (0x0D, ['\\', 'r']), (0x22, ['\\', '"']), (0x5C, ['\\', '\\'])]

/-- One character of `_escape_string`. -/
def escape (c : CodePoint) : Except PyErr (List Char) :=
  match escapes.lookup (ord c) with
  | some t => .ok t
  | none =>
      if ord c < 0x20 then .ok ('\\' :: 'u' :: hexText (ord c))
      else
        match c with
        | .surrogate _ =>
            raise .ValueError
              "cannot canonicalise a lone surrogate (RFC 8785 3.2.2.2 requires an error)"
        | .scalar c => .ok [c]

/-- `_escape_string`. -/
def escapeString (s : PyStr) : Except PyErr (List Char) :=
  (s.mapM escape).map fun out => '"' :: (out.flatten ++ ['"'])

/-- One member.  The members are sorted by `_utf16_key`, which is `_jcs_sort_key`. -/
def member (kv : PyKey × Except PyErr (List Char)) : Except PyErr (List Char) :=
  match kv.1 with
  | .str k => do
      let k ← escapeString k
      let t ← kv.2
      return k ++ ':' :: t
  | _ => raise .TypeError "JSON object keys must be strings"

mutual

/-- `_render`. -/
def render : PyValue → Except PyErr (List Char)
  | .none => .ok nullText
  | .bool b => .ok (boolText b)
  | .str s => escapeString s
  | .int n => esNumber (.int n)
  | .float x => esNumber (.float x)
  | .dict items => do
      let members ← jcsSorted (renderItems items)
      let out ← members.mapM member
      return '{' :: (join [','] out ++ ['}'])
  | .list xs => (renderList xs).map fun out => '[' :: (join [','] out ++ [']'])
  | .tuple xs => (renderList xs).map fun out => '[' :: (join [','] out ++ [']'])
  | .other o =>
      .error ⟨.TypeError, lit "Object of type " ++ o.typeName ++ lit " is not JSON serializable"⟩

/-- `_render` of the elements of a list. -/
def renderList : List PyValue → Except PyErr (List (List Char))
  | [] => .ok []
  | x :: xs => do
      let t ← render x
      let ts ← renderList xs
      return t :: ts

/-- The members before sorting. -/
def renderItems : Items → List (PyKey × Except PyErr (List Char))
  | [] => []
  | (k, v) :: items => (k, render v) :: renderItems items

end

/-- `canonical_json`. -/
def canonicalJson (v : PyValue) : Except PyErr Bytes := (render v).map utf8

/-! ## Agreement -/

variable {α β : Type}

/-- The same result, or an exception on both sides. -/
def Agree (x y : Except PyErr α) : Prop := x.toOption = y.toOption

@[simp] theorem Agree.refl (x : Except PyErr α) : Agree x x := rfl

/-- Two exceptions agree, whatever they are. -/
theorem agree_error (e e' : PyErr) : Agree (.error e : Except PyErr α) (.error e') := rfl

/-- What agrees returns the same, or raises on both sides. -/
theorem Agree.cases {x y : Except PyErr α} (h : Agree x y) :
    (∃ a, x = .ok a ∧ y = .ok a) ∨ ∃ e e', x = .error e ∧ y = .error e' := by
  cases x with
  | error e =>
      cases y with
      | error e' => exact .inr ⟨e, e', rfl, rfl⟩
      | ok b => cases h
  | ok a =>
      cases y with
      | error e' => cases h
      | ok b =>
          cases h
          exact .inl ⟨a, rfl, rfl⟩

/-- Agreement is kept by what follows. -/
theorem Agree.bind {x y : Except PyErr α} (h : Agree x y) {f g : α → Except PyErr β}
    (hfg : ∀ a, Agree (f a) (g a)) : Agree (x >>= f) (y >>= g) := by
  rcases h.cases with ⟨a, rfl, rfl⟩ | ⟨e, e', rfl, rfl⟩
  · exact hfg a
  · exact agree_error e e'

theorem Agree.map {x y : Except PyErr α} (h : Agree x y) (f : α → β) :
    Agree (x.map f) (y.map f) := by
  rcases h.cases with ⟨a, rfl, rfl⟩ | ⟨e, e', rfl, rfl⟩
  · exact .refl _
  · exact agree_error e e'

/-- A loop over the same elements keeps it too. -/
theorem agree_mapM {f g : α → Except PyErr β} {l : List α} (h : ∀ a ∈ l, Agree (f a) (g a)) :
    Agree (l.mapM f) (l.mapM g) := by
  induction l with
  | nil => exact .refl _
  | cons a l ih =>
      obtain ⟨ha, hl⟩ := List.forall_mem_cons.mp h
      rw [List.mapM_cons, List.mapM_cons]
      exact ha.bind fun b => (ih hl).bind fun bs => .refl _

/-! ## Strings and members -/

/-- One character, in either table of escapes. -/
theorem agree_escape (c : CodePoint) : Agree (escape c) (jcsEscape c) := by
  rw [escape.eq_def, jcsEscape.eq_def, show escapes = jcsEscapes from rfl]
  cases jcsEscapes.lookup (ord c) with
  | some t => exact .refl _
  | none =>
      dsimp only
      split
      · exact .refl _
      · cases c with
        | surrogate s => exact agree_error _ _
        | scalar c => exact .refl _

/-- The two spell every string alike. -/
theorem agree_escapeString (s : PyStr) : Agree (escapeString s) (jcsEscapeString s) :=
  (agree_mapM fun c _ => agree_escape c).map _

/-- A member is spelled alike if its value is. -/
theorem agree_member {k : PyKey} {t t' : Except PyErr (List Char)} (h : Agree t t') :
    Agree (member (k, t)) (jcsMember (k, t')) := by
  cases k with
  | str k => exact (agree_escapeString k).bind fun k => h.bind fun t => .refl _
  | _ => exact agree_error _ _

/-! ## Values -/

/-- The two spell every integer alike. -/
theorem agree_int (n : ℤ) : Agree (esNumber (.int n)) (jcsNumber (.int n)) := by
  rw [jcsNumber, jcsInteger, esNumber]
  split
  next hsmall =>
    rw [if_pos (Binary64.isFinite_ofInt hsmall), jcsDouble_small hsmall, intText_small hsmall]
    exact .refl _
  next =>
    split
    · exact .refl _
    · exact agree_error _ _

/-- The values are rendered before the keys are sorted. -/
theorem renderItems_eq (items : Items) :
    renderItems items = items.map fun kv => (kv.1, render kv.2) := by
  induction items with
  | nil => rw [renderItems, List.map_nil]
  | cons kv items ih => rw [renderItems, ih, List.map_cons]

theorem agree_renderList {xs : List PyValue} (h : ∀ x ∈ xs, Agree (render x) (jcsRender x)) :
    Agree (renderList xs) (jcsRenderList xs) := by
  induction xs with
  | nil => rw [renderList, jcsRenderList]; exact .refl _
  | cons x xs ih =>
      obtain ⟨hx, hxs⟩ := List.forall_mem_cons.mp h
      rw [renderList, jcsRenderList]
      exact hx.bind fun t => (ih hxs).bind fun ts => .refl _

/-- Sorting adds no member. -/
theorem mem_of_jcsSorted {items out : List (PyKey × α)} (h : jcsSorted items = .ok out)
    {kv : PyKey × α} (hkv : kv ∈ out) : kv ∈ items := by
  obtain ⟨keyed, hk, h⟩ := bind_eq_ok.mp h
  cases h
  obtain ⟨p, hp, rfl⟩ := List.mem_map.mp hkv
  obtain ⟨kv, hitem, hm⟩ := PyValue.exists_left_of_forall₂ (mapM_eq_ok.mp hk)
    ((sortedBy_perm bytesLe keyed).mem_iff.mp hp)
  obtain ⟨b, _, rfl⟩ := map_eq_ok.mp hm
  exact hitem

/-- The members of a dict, sorted and written. -/
theorem agree_members {items : Items} (h : ∀ kv ∈ items, Agree (render kv.2) (jcsRender kv.2)) :
    Agree (jcsSorted (renderItems items) >>= fun members => members.mapM member)
      (jcsSorted (jcsRenderItems items) >>= fun members => members.mapM jcsMember) := by
  -- both are the sorted items, with the one or the other rendering put in
  have hsorted (f : PyValue → Except PyErr (List Char)) := Str.jcsSorted_map f items
  rw [renderItems_eq, jcsRenderItems_eq, hsorted, hsorted]
  cases hs : jcsSorted items with
  | error e => exact .refl _
  | ok sorted =>
      show Agree ((sorted.map _).mapM member) ((sorted.map _).mapM jcsMember)
      rw [List.mapM_map, List.mapM_map]
      refine agree_mapM fun kv hkv => agree_member (h kv ?_)
      exact mem_of_jcsSorted hs hkv

/-- By induction on the value: both sides sort the keys of a dict in one order. -/
theorem agree_render (v : PyValue) : Agree (render v) (jcsRender v) := by
  induction v with
  | none => rw [render, jcsRender]; exact .refl _
  | bool b => rw [render, jcsRender]; exact .refl _
  | str s => rw [render, jcsRender]; exact agree_escapeString s
  | int n => rw [render, jcsRender]; exact agree_int n
  | float x => rw [render, jcsRender]; exact .refl _
  | list xs ih => rw [render, jcsRender]; exact (agree_renderList ih).map _
  | tuple xs ih => rw [render, jcsRender]; exact (agree_renderList ih).map _
  | dict items ih =>
      rw [render, jcsRender, ← bind_assoc, ← bind_assoc]
      exact (agree_members ih).bind fun out => .refl _
  | other o => rw [render, jcsRender]; exact .refl _

/-- On every value the candidate and the core write the same bytes, or both raise. -/
theorem renderers_agree (v : PyValue) :
    (canonicalJson v).toOption = (Corrlog.canonicalJson v).toOption :=
  (agree_render v).map utf8

/-- They raise other exceptions, so no more than this holds. -/
example : canonicalJson (.int (10 ^ 400)) ≠ Corrlog.canonicalJson (.int (10 ^ 400)) := by
  decide +kernel

end Corrlog.Candidate
