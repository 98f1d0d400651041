import Corrlog.Core.Canonical

/-!
# The rendered text as a Python string

`_jcs_render` builds a Python string, which could hold surrogates, and
`canonical_json` encodes it at the end.  Here the renderer is followed at that
level.  It gives the text of `jcsRender` (`Str.jcsRender_eq`), so the encoding
never fails, and `canonical_json` fails exactly where the renderer does: at a
value that holds something without a JSON text (`canonicalJson_fails`).
-/

namespace Corrlog

open Python
open Binary64 (ofInt)

namespace Str

/-! ## The code -/

/-- One character of `_jcs_escape_string`. -/
def jcsEscape (c : CodePoint) : Except PyErr PyStr :=
  match jcsEscapes.lookup (ord c) with
  | some t => .ok (ofChars t)
  | none =>
      if ord c < 0x20 then .ok (ofChars ('\\' :: 'u' :: hexText (ord c)))
      else if 0xD800 ≤ ord c ∧ ord c ≤ 0xDFFF then
        raise .ValueError ("cannot canonicalize a lone surrogate; RFC 8785 3.2.2.2 " ++
          "requires a compliant implementation to terminate with an error")
      else .ok [c]

/-- `_jcs_escape_string`. -/
def jcsEscapeString (s : PyStr) : Except PyErr PyStr :=
  (s.mapM jcsEscape).map fun out => ofChars ['"'] ++ (out.flatten ++ ofChars ['"'])

/-- `",".join(parts)`. -/
def join : List PyStr → PyStr
  | [] => []
  | [t] => t
  | t :: t' :: ts => t ++ (ofChars [','] ++ join (t' :: ts))

/-- One member. -/
def jcsMember (kv : PyKey × Except PyErr PyStr) : Except PyErr PyStr :=
  match kv.1 with
  | .str k => do
      let k ← jcsEscapeString k
      let t ← kv.2
      return k ++ (ofChars [':'] ++ t)
  | _ => raise .TypeError "JSON object keys must be strings"

mutual

/-- `_jcs_render`. -/
def jcsRender : PyValue → Except PyErr PyStr
  | .none => .ok (ofChars nullText)
  | .bool b => .ok (ofChars (boolText b))
  | .str s => jcsEscapeString s
  | .int n => (jcsNumber (.int n)).map ofChars
  | .float x => (jcsNumber (.float x)).map ofChars
  | .dict items => do
      let members ← jcsSorted (jcsRenderItems items)
      let out ← members.mapM jcsMember
      return ofChars ['{'] ++ (join out ++ ofChars ['}'])
  | .list xs => (jcsRenderList xs).map fun out => ofChars ['['] ++ (join out ++ ofChars [']'])
  | .tuple xs => (jcsRenderList xs).map fun out => ofChars ['['] ++ (join out ++ ofChars [']'])
  | .other o =>
      .error ⟨.TypeError, lit "Object of type " ++ o.typeName ++ lit " is not JSON serializable"⟩

/-- `_jcs_render` of the elements of a list. -/
def jcsRenderList : List PyValue → Except PyErr (List PyStr)
  | [] => .ok []
  | x :: xs => do
      let t ← jcsRender x
      let ts ← jcsRenderList xs
      return t :: ts

/-- `_jcs_render` of the values of a dict, with its keys. -/
def jcsRenderItems : Items → List (PyKey × Except PyErr PyStr)
  | [] => []
  | (k, v) :: items => (k, jcsRender v) :: jcsRenderItems items

end

/-- `canonical_json`, with the encoding at the end. -/
def canonicalJson (v : PyValue) : Except PyErr Bytes := do
  let out ← jcsRender v
  match encodeUtf8 out with
  | some b => return b
  | none => builtinError .UnicodeError

/-! ## It is the text of the renderer -/

/-- One character, with the same escape on strings of code points. -/
theorem jcsEscape_eq (c : CodePoint) : jcsEscape c = (Corrlog.jcsEscape c).map ofChars := by
  rw [jcsEscape, Corrlog.jcsEscape.eq_def]
  cases jcsEscapes.lookup (ord c) with
  | some t => rfl
  | none =>
      dsimp only
      split
      next => rfl
      next =>
        cases c with
        | scalar c =>
            have hrange := char_toNat_range c
            rw [ord, if_neg (by omega)]
            rfl
        | surrogate s =>
            have hrange := s.isLt
            rw [ord, if_pos (by omega)]
            rfl

/-- A loop of results that are mapped. -/
theorem mapM_map {α β γ : Type} {f : α → Except PyErr β} {f' : α → Except PyErr γ} (g : β → γ)
    (h : ∀ a, f' a = (f a).map g) (l : List α) : l.mapM f' = (l.mapM f).map (List.map g) := by
  induction l with
  | nil => rfl
  | cons a l ih =>
      rw [List.mapM_cons, List.mapM_cons, h, ih]
      cases f a with
      | error e => rfl
      | ok b =>
          cases l.mapM f with
          | error e => rfl
          | ok bs => rfl

theorem flatten_map_ofChars (ts : List (List Char)) :
    (ts.map ofChars).flatten = ofChars ts.flatten := List.map_flatten.symm

/-- Every string is escaped the same. -/
theorem jcsEscapeString_eq (s : PyStr) :
    jcsEscapeString s = (Corrlog.jcsEscapeString s).map ofChars := by
  rw [jcsEscapeString, Corrlog.jcsEscapeString, mapM_map ofChars jcsEscape_eq]
  cases s.mapM Corrlog.jcsEscape with
  | error e => rfl
  | ok out =>
      simp only [Except.map, flatten_map_ofChars, ← ofChars_append]
      rfl

theorem join_map_ofChars : ∀ ts : List (List Char),
    join (ts.map ofChars) = ofChars (Python.join [','] ts)
  | [] => rfl
  | [t] => rfl
  | t :: t' :: ts => by
      have ih := join_map_ofChars (t' :: ts)
      rw [List.map_cons, List.map_cons, join, Python.join, ofChars_append, ofChars_append, ← ih,
        List.map_cons]

/-- Every member is written the same. -/
theorem jcsMember_eq (kv : PyKey × Except PyErr (List Char)) :
    jcsMember (kv.1, kv.2.map ofChars) = (Corrlog.jcsMember kv).map ofChars := by
  obtain ⟨k, t⟩ := kv
  cases k with
  | str k =>
      rw [jcsMember, Corrlog.jcsMember]
      dsimp only
      rw [jcsEscapeString_eq]
      cases Corrlog.jcsEscapeString k with
      | error e => rfl
      | ok k =>
          cases t with
          | error e => rfl
          | ok t =>
              simp only [Except.map, bind, Except.bind, pure, Except.pure, ← ofChars_append]
              rfl
  | none => rfl
  | bool b => rfl
  | int n => rfl
  | float x => rfl
  | other o => rfl

/-- Sorting looks at the keys only. -/
theorem jcsSorted_map {α β : Type} (g : α → β) (l : List (PyKey × α)) :
    jcsSorted (l.map fun kv => (kv.1, g kv.2)) =
      (jcsSorted l).map (List.map fun kv => (kv.1, g kv.2)) := by
  have hkeyed : (l.map fun kv => (kv.1, g kv.2)).mapM
      (fun kv => (jcsSortKey kv.1).map (·, kv)) =
        (l.mapM fun kv => (jcsSortKey kv.1).map (·, kv)).map
          (List.map fun p => (p.1, (p.2.1, g p.2.2))) := by
    rw [List.mapM_map]
    refine mapM_map _ (fun kv => ?_) l
    rw [Function.comp_apply]
    cases jcsSortKey kv.1 with
    | error e => rfl
    | ok b => rfl
  rw [jcsSorted, hkeyed, jcsSorted]
  cases l.mapM fun kv => (jcsSortKey kv.1).map (·, kv) with
  | error e => rfl
  | ok keyed =>
      have hmap := sortedBy_map bytesLe (fun kv : PyKey × α => (kv.1, g kv.2)) keyed
      simp only [Except.map, bind, Except.bind, pure, Except.pure, Except.ok.injEq]
      rw [hmap, List.map_map, List.map_map]
      rfl

/-- The members are, if their values are rendered the same. -/
theorem jcsRenderItems_eq (items : Items)
    (ih : ∀ kv ∈ items, jcsRender kv.2 = (Corrlog.jcsRender kv.2).map ofChars) :
    jcsRenderItems items =
      (Corrlog.jcsRenderItems items).map fun kv => (kv.1, kv.2.map ofChars) := by
  induction items with
  | nil => rw [jcsRenderItems, Corrlog.jcsRenderItems, List.map_nil]
  | cons kv items ih' =>
      rw [jcsRenderItems, Corrlog.jcsRenderItems, List.map_cons, ih kv List.mem_cons_self,
        ih' fun kv hkv => ih kv (List.mem_cons_of_mem _ hkv)]

/-- The elements of a list are written the same if their values are. -/
theorem jcsRenderList_eq (xs : List PyValue)
    (ih : ∀ x ∈ xs, jcsRender x = (Corrlog.jcsRender x).map ofChars) :
    jcsRenderList xs = (Corrlog.jcsRenderList xs).map (List.map ofChars) := by
  induction xs with
  | nil => rw [jcsRenderList, Corrlog.jcsRenderList]; rfl
  | cons x xs ih' =>
      rw [jcsRenderList, Corrlog.jcsRenderList, ih x List.mem_cons_self,
        ih' fun x hx => ih x (List.mem_cons_of_mem _ hx)]
      cases Corrlog.jcsRender x with
      | error e => rfl
      | ok t =>
          cases Corrlog.jcsRenderList xs with
          | error e => rfl
          | ok ts => rfl

theorem array_eq (ts : Except PyErr (List (List Char))) :
    ((ts.map (List.map ofChars)).map fun out => ofChars ['['] ++ (join out ++ ofChars [']'])) =
      (ts.map fun out => '[' :: (Python.join [','] out ++ [']'])).map ofChars := by
  cases ts with
  | error e => rfl
  | ok ts =>
      simp only [Except.map, join_map_ofChars, ← ofChars_append]
      rfl

/-- The rendered string is the rendered text. -/
theorem jcsRender_eq (v : PyValue) : jcsRender v = (Corrlog.jcsRender v).map ofChars := by
  induction v with
  | none => rw [jcsRender, Corrlog.jcsRender]; rfl
  | bool b => rw [jcsRender, Corrlog.jcsRender]; rfl
  | int n => rw [jcsRender, Corrlog.jcsRender]
  | float x => rw [jcsRender, Corrlog.jcsRender]
  | str s => rw [jcsRender, Corrlog.jcsRender, jcsEscapeString_eq]
  | list xs ih => rw [jcsRender, Corrlog.jcsRender, jcsRenderList_eq xs ih, array_eq]
  | tuple xs ih => rw [jcsRender, Corrlog.jcsRender, jcsRenderList_eq xs ih, array_eq]
  | dict items ih =>
      rw [jcsRender, Corrlog.jcsRender, jcsRenderItems_eq items ih, jcsSorted_map]
      cases jcsSorted (Corrlog.jcsRenderItems items) with
      | error e => rfl
      | ok members =>
          have hout := mapM_map ofChars jcsMember_eq members
          simp only [Except.map, bind, Except.bind] at hout ⊢
          rw [List.mapM_map]
          simp only [Function.comp_def, hout]
          cases members.mapM Corrlog.jcsMember with
          | error e => rfl
          | ok out =>
              simp only [pure, Except.pure, join_map_ofChars, ← ofChars_append]
              rfl
  | other o => rw [jcsRender, Corrlog.jcsRender]; rfl

/-- The encoding never fails. -/
theorem canonicalJson_eq (v : PyValue) : canonicalJson v = Corrlog.canonicalJson v := by
  rw [canonicalJson, Corrlog.canonicalJson, jcsRender_eq]
  cases Corrlog.jcsRender v with
  | error e => rfl
  | ok t =>
      simp only [Except.map, bind, Except.bind, encodeUtf8_ofChars]
      rfl

end Str

/-! ## What has no canonical form -/

/-- Somewhere in the value is something without a JSON text. -/
inductive Offends : PyValue → Prop
  | nan : Offends (.float .nan)
  | inf (neg : Bool) : Offends (.float (.inf neg))
  | int {n : ℤ} : (ofInt n).isFinite = false → Offends (.int n)
  | str {s : PyStr} {c : CodePoint} : c ∈ s → c.isScalar = false → Offends (.str s)
  | other (o : Foreign) : Offends (.other o)
  | list {xs : List PyValue} {x : PyValue} : x ∈ xs → Offends x → Offends (.list xs)
  | tuple {xs : List PyValue} {x : PyValue} : x ∈ xs → Offends x → Offends (.tuple xs)
  | key {items : Items} {k : PyKey} {v : PyValue} :
      (k, v) ∈ items → (∀ s, k ≠ .str s) → Offends (.dict items)
  | keyStr {items : Items} {s : PyStr} {v : PyValue} :
      (.str s, v) ∈ items → Offends (.str s) → Offends (.dict items)
  | value {items : Items} {k : PyKey} {v : PyValue} :
      (k, v) ∈ items → Offends v → Offends (.dict items)

/-- What offends has no JSON text. -/
theorem not_jsonAble_of_offends {v : PyValue} (h : Offends v) : ¬ v.JsonAble := by
  induction h with
  | nan => exact Bool.false_ne_true
  | inf neg => exact Bool.false_ne_true
  | int hn => exact fun hj => Bool.false_ne_true (hn.symm.trans hj)
  | str hc hs => exact fun hj => Bool.false_ne_true (hs.symm.trans (List.all_eq_true.mp hj _ hc))
  | other o => exact PyValue.not_jsonAble_other o
  | list hx _ ih => exact fun hj => ih ((PyValue.jsonAble_list _).mp hj _ hx)
  | tuple hx _ ih => exact fun hj => ih ((PyValue.jsonAble_tuple _).mp hj _ hx)
  | @key items k v hkv hk =>
      intro hj
      have hkey := ((PyValue.jsonAble_dict _).mp hj _ hkv).1
      cases k with
      | str s => exact hk s rfl
      | _ => exact hkey
  | keyStr hkv _ ih => exact fun hj => ih ((PyValue.jsonAble_dict _).mp hj _ hkv).1
  | value hkv _ ih => exact fun hj => ih ((PyValue.jsonAble_dict _).mp hj _ hkv).2

theorem offends_str {s : PyStr} (h : noSurrogates s ≠ true) : Offends (.str s) := by
  rw [noSurrogates, ne_eq, List.all_eq_true] at h
  push Not at h
  obtain ⟨c, hc, hs⟩ := h
  exact .str hc (Bool.eq_false_iff.mpr hs)

/-- Whatever has none has an offending part. -/
theorem offends_of_not_jsonAble {v : PyValue} (h : ¬ v.JsonAble) : Offends v := by
  induction v with
  | none => exact absurd PyValue.jsonAble_none h
  | bool b => exact absurd (PyValue.jsonAble_bool b) h
  | int n => exact .int (Bool.eq_false_iff.mpr h)
  | float x =>
      cases x with
      | finite neg m => exact absurd rfl h
      | inf neg => exact .inf neg
      | nan => exact .nan
  | str s => exact offends_str h
  | list xs ih =>
      rw [PyValue.jsonAble_list] at h
      push Not at h
      obtain ⟨x, hx, hj⟩ := h
      exact .list hx (ih x hx hj)
  | tuple xs ih =>
      rw [PyValue.jsonAble_tuple] at h
      push Not at h
      obtain ⟨x, hx, hj⟩ := h
      exact .tuple hx (ih x hx hj)
  | dict items ih =>
      rw [PyValue.jsonAble_dict] at h
      push Not at h
      obtain ⟨⟨k, v⟩, hkv, hj⟩ := h
      by_cases hv : v.JsonAble
      · cases k with
        | str s => exact .keyStr hkv (offends_str fun hs => hj hs hv)
        | _ => exact .key hkv (fun s h => by cases h)
      · exact .value hkv (ih _ hkv hv)
  | other o => exact .other o

theorem offends_iff {v : PyValue} : Offends v ↔ ¬ v.JsonAble :=
  ⟨not_jsonAble_of_offends, offends_of_not_jsonAble⟩

/-- `canonical_json` raises exactly on the values that hold something without a
JSON text, and returns bytes as soon as the rendering succeeds. -/
theorem canonicalJson_fails (v : PyObject) :
    ((∃ e, Str.canonicalJson v.val = .error e) ↔ Offends v.val) ∧
    ((∃ b, Str.canonicalJson v.val = .ok b) ↔ ¬ Offends v.val) ∧
    ((∃ b, Str.canonicalJson v.val = .ok b) ↔ ∃ out, Str.jcsRender v.val = .ok out) := by
  have hok : (∃ b, Corrlog.canonicalJson v.val = .ok b) ↔ ¬ Offends v.val := by
    rw [← jsonAble_iff_canonicalJson v.wf, offends_iff, not_not]
  rw [Str.canonicalJson_eq]
  refine ⟨?_, hok, ?_⟩
  · rw [← not_not (a := Offends v.val), ← hok]
    cases Corrlog.canonicalJson v.val with
    | error e => simp
    | ok b => simp
  · rw [Str.jcsRender_eq, Corrlog.canonicalJson]
    cases Corrlog.jcsRender v.val with
    | error e => simp [Except.map]
    | ok t => simp [Except.map]

end Corrlog
