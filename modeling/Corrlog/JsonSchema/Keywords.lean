import Corrlog.Python.Lookup

/-!
# JSON Schema

The keywords of Draft 2020-12 that the record schema uses, and what they say of
a Python value (`valid`).  `required` and `properties` say nothing of a value
that is not a dict, and `minLength`, `pattern` and `format` nothing of one that
is not a `str`.

A verdict does not depend on which Python value a JSON value is
(`valid_of_same`), nor on more of one property than its own schemas say
(`valid_setStr`).
-/

namespace JsonSchema

open Python

/-! ## Keywords -/

/-- A schema.  The keywords of a schema object hold together (`and`), as the
members of `allOf` do. -/
inductive Schema where
  | trivial
  | and (s t : Schema)
  | or (s t : Schema)
  | not (s : Schema)
  | ifThen (c t : Schema)
  | isObject
  | isString
  | has (k : String)
  | property (k : String) (s : Schema)
  | enum (values : List String)
  | minLength (n : ℕ)
  | pattern (ranges : List (Char × Char)) (n : ℕ)
  | dateTime

namespace Schema

/-- A schema object, or `allOf`. -/
def allOf : List Schema → Schema
  | [] => trivial
  | s :: ss => and s (allOf ss)

/-- `anyOf`, of at least one schema. -/
def anyOf : List Schema → Schema
  | [] => not trivial
  | s :: ss => or s (anyOf ss)

/-- `"required": ks`. -/
def required (ks : List String) : Schema := allOf (ks.map has)

/-- `"properties": {k: s, ...}`. -/
def properties (kss : List (String × Schema)) : Schema :=
  allOf (kss.map fun ks => property ks.1 ks.2)

/-- `"const": s`. -/
def const (s : String) : Schema := enum [s]

end Schema

/-- A character class, given by its ranges. -/
def inClass (ranges : List (Char × Char)) (c : CodePoint) : Bool :=
  ranges.any fun r => decide (r.1.toNat ≤ ord c ∧ ord c ≤ r.2.toNat)

/-- The regular expression `^[ranges]{n}$`: the end of the string may have a line
feed before it. -/
def fullMatch (ranges : List (Char × Char)) (n : ℕ) (s : PyStr) : Bool :=
  let run (t : PyStr) := decide (t.length = n) && t.all (inClass ranges)
  run s || (decide (s.getLast? = some (.scalar '\n')) && run s.dropLast)

/-- A keyword about objects. -/
def onDict (v : PyValue) (check : Items → Bool) : Bool :=
  match v with
  | .dict items => check items
  | _ => true

/-- A keyword about strings. -/
def onStr (v : PyValue) (check : PyStr → Bool) : Bool :=
  match v with
  | .str s => check s
  | _ => true

/-- `validator.is_valid(v)`, given the check of the `date-time` format. -/
def valid (isDateTime : PyStr → Bool) : Schema → PyValue → Bool
  | .trivial, _ => true
  | .and s t, v => valid isDateTime s v && valid isDateTime t v
  | .or s t, v => valid isDateTime s v || valid isDateTime t v
  | .not s, v => !valid isDateTime s v
  | .ifThen c t, v => !valid isDateTime c v || valid isDateTime t v
  | .isObject, v => v.isDict
  | .isString, v => v.isStr
  | .has k, v => onDict v fun items => (getStr k items).isSome
  | .property k s, v => onDict v fun items =>
      match getStr k items with
      | some w => valid isDateTime s w
      | none => true
  | .enum values, v => values.any fun s => PyValue.pyEq v (.str (lit s))
  | .minLength n, v => onStr v fun s => decide (n ≤ s.length)
  | .pattern ranges n, v => onStr v (fullMatch ranges n)
  | .dateTime, v => onStr v isDateTime

/-! ## Objects -/

section

variable {isDateTime : PyStr → Bool}

/-- Every schema accepts the value. -/
theorem valid_allOf {ss : List Schema} {v : PyValue} :
    valid isDateTime (.allOf ss) v = true ↔ ∀ s ∈ ss, valid isDateTime s v = true := by
  induction ss with
  | nil => simp [Schema.allOf, valid]
  | cons s ss ih => simp [Schema.allOf, valid, ih]

/-- The listed members are there. -/
theorem valid_required {ks : List String} {items : Items} :
    valid isDateTime (.required ks) (.dict items) = true ↔
      ∀ k ∈ ks, ∃ w, getStr k items = some w := by
  rw [Schema.required, valid_allOf, List.forall_mem_map]
  simp only [valid, onDict, Option.isSome_iff_exists]

/-- The members that are there have the listed schemas. -/
theorem valid_properties {kss : List (String × Schema)} {items : Items} :
    valid isDateTime (.properties kss) (.dict items) = true ↔
      ∀ ks ∈ kss, ∀ w, getStr ks.1 items = some w → valid isDateTime ks.2 w = true := by
  rw [Schema.properties, valid_allOf, List.forall_mem_map]
  refine forall₂_congr fun ks _ => ?_
  rw [valid, onDict]
  cases getStr ks.1 items with
  | none => simp
  | some w => simp

end

/-! ## Verdicts on the same value -/

section

variable {isDateTime : PyStr → Bool} {v w : PyValue}

theorem onStr_of_isStr_eq_false (h : v.isStr = false) (check : PyStr → Bool) :
    onStr v check = true := by
  cases v <;> first | rfl | cases h

theorem onDict_of_isDict_eq_false (h : v.isDict = false) (check : Items → Bool) :
    onDict v check = true := by
  cases v <;> first | rfl | cases h

/-- A check of strings sees no difference. -/
theorem onStr_of_same (h : PyValue.Same v w) (check : PyStr → Bool) :
    onStr v check = onStr w check := by
  have hs := PyValue.isStr_of_same h
  cases hv : v.isStr with
  | true =>
      obtain ⟨s, rfl⟩ := PyValue.exists_str_of_isStr hv
      cases h
      rfl
  | false =>
      rw [onStr_of_isStr_eq_false hv, onStr_of_isStr_eq_false (hs ▸ hv)]

/-- A check of objects sees no difference if it sees none in their members. -/
theorem onDict_of_same (h : PyValue.Same v w) {check check' : Items → Bool}
    (hc : ∀ items items', v = .dict items → w = .dict items' → check items = check' items') :
    onDict v check = onDict w check' := by
  have hd := PyValue.isDict_of_same h
  cases hv : v.isDict with
  | true =>
      rw [hv] at hd
      obtain ⟨items, rfl⟩ := PyValue.exists_dict_of_isDict hv
      obtain ⟨items', rfl⟩ := PyValue.exists_dict_of_isDict hd.symm
      exact hc items items' rfl rfl
  | false =>
      rw [onDict_of_isDict_eq_false hv, onDict_of_isDict_eq_false (hd ▸ hv)]

/-- A verdict is about the JSON value. -/
theorem valid_of_same (s : Schema) (hv : v.WF) (hw : w.WF) (h : PyValue.Same v w) :
    valid isDateTime s v = valid isDateTime s w := by
  induction s generalizing v w with
  | trivial => rfl
  | and s t ihs iht => rw [valid, valid, ihs hv hw h, iht hv hw h]
  | or s t ihs iht => rw [valid, valid, ihs hv hw h, iht hv hw h]
  | not s ih => rw [valid, valid, ih hv hw h]
  | ifThen c t ihc iht => rw [valid, valid, ihc hv hw h, iht hv hw h]
  | isObject => exact PyValue.isDict_of_same h
  | isString => exact PyValue.isStr_of_same h
  | has k =>
      refine onDict_of_same h fun items items' hi hi' => ?_
      subst hi hi'
      have hk := PyValue.getKey_of_same hw h (.str (lit k))
      rw [getStr, getStr]
      generalize getKey (.str (lit k)) items = a at hk
      generalize getKey (.str (lit k)) items' = b at hk
      cases hk <;> rfl
  | property k s ih =>
      refine onDict_of_same h fun items items' hi hi' => ?_
      subst hi hi'
      have hk := PyValue.getKey_of_same hw h (.str (lit k))
      rw [getStr, getStr]
      generalize ha : getKey (.str (lit k)) items = a at hk
      generalize hb : getKey (.str (lit k)) items' = b at hk
      cases hk with
      | none => rfl
      | some hs => exact ih (PyValue.wf_of_getKey hv ha) (PyValue.wf_of_getKey hw hb) hs
  | enum values =>
      have heq : ∀ s : String, PyValue.pyEq v (.str (lit s)) = PyValue.pyEq w (.str (lit s)) := by
        intro s
        rw [Bool.eq_iff_iff, PyValue.pyEq_str_iff, PyValue.pyEq_str_iff]
        exact PyValue.eq_str_iff_of_same h
      simp only [valid, heq]
  | minLength n => exact onStr_of_same h _
  | pattern ranges n => exact onStr_of_same h _
  | dateTime => exact onStr_of_same h _

end

/-! ## Changing one property -/

namespace Schema

/-- The schemas of a property of the object itself. -/
def ofProperty (k : String) : Schema → List Schema
  | and s t => s.ofProperty k ++ t.ofProperty k
  | or s t => s.ofProperty k ++ t.ofProperty k
  | not s => s.ofProperty k
  | ifThen c t => c.ofProperty k ++ t.ofProperty k
  | property k' s => if k' = k then [s] else []
  | _ => []

end Schema

/-- A verdict on an object does not change with the value of a property that it
has, as long as the verdicts on that value do not. -/
theorem valid_setStr {isDateTime : PyStr → Bool} (s : Schema) {k : String} {v w : PyValue}
    {items : Items} (hk : getStr k items = some v)
    (h : ∀ t ∈ s.ofProperty k, valid isDateTime t v = valid isDateTime t w) :
    valid isDateTime s (.dict items) = valid isDateTime s (.dict (setStr k w items)) := by
  have hget : ∀ k', getStr k' (setStr k w items) = if k' = k then some w else getStr k' items := by
    intro k'
    split
    next he => rw [he, getStr, setStr, getKey_setKey_self]
    next he =>
      exact getKey_setKey_ne (fun hs => he (lit_injective (PyKey.str.inj hs))) w items
  induction s with
  | trivial => rfl
  | and s t ihs iht =>
      rw [valid, valid, ihs fun u hu => h u (List.mem_append_left _ hu),
        iht fun u hu => h u (List.mem_append_right _ hu)]
  | or s t ihs iht =>
      rw [valid, valid, ihs fun u hu => h u (List.mem_append_left _ hu),
        iht fun u hu => h u (List.mem_append_right _ hu)]
  | not s ih => rw [valid, valid, ih h]
  | ifThen c t ihc iht =>
      rw [valid, valid, ihc fun u hu => h u (List.mem_append_left _ hu),
        iht fun u hu => h u (List.mem_append_right _ hu)]
  | isObject => rfl
  | isString => rfl
  | has k' =>
      simp only [valid, onDict, hget]
      split
      next he => rw [he, hk]; rfl
      next he => rfl
  | property k' s ih =>
      simp only [valid, onDict, hget]
      by_cases he : k' = k
      · rw [if_pos he, he, hk]
        exact h s (by rw [Schema.ofProperty, if_pos he]; exact List.mem_singleton.mpr rfl)
      · rw [if_neg he]
  | enum values => simp only [valid, PyValue.pyEq]
  | minLength n => rfl
  | pattern ranges n => rfl
  | dateTime => rfl

end JsonSchema
