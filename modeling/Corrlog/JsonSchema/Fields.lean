import Corrlog.JsonSchema.Keywords

/-!
# Objects with typed fields

A `Field` says of an object that a property has a type, and whether it must be
there.  The schemas that use only `type`, `required` and `properties` say that
the value is an object with certain fields (`valid_object`).
-/

namespace JsonSchema

open Python

/-! ## Types -/

/-- A type of JSON values. -/
abbrev Kind := PyValue → Prop

/-- A string. -/
def Text : Kind := fun v => ∃ s, v = .str s

/-- A string of at least `n` characters. -/
def TextOf (n : ℕ) : Kind := fun v => ∃ s, v = .str s ∧ n ≤ s.length

/-- One of some texts. -/
def OneOf (texts : List String) : Kind := fun v => ∃ t ∈ texts, v = .str (lit t)

/-- `n` characters of a class.  A final line feed is overlooked: `$` matches before it. -/
def Chars (ranges : List (Char × Char)) (n : ℕ) : Kind := fun v =>
  ∃ s, (v = .str s ∨ v = .str (s ++ [.scalar '\n'])) ∧ s.length = n ∧
    ∀ c ∈ s, inClass ranges c = true

/-- A property of an object. -/
structure Field where
  name : String
  required : Bool
  kind : Kind

/-- The property is there if it must be, and has its type if it is. -/
def Field.Holds (f : Field) (items : Items) : Prop :=
  match getStr f.name items with
  | some w => f.kind w
  | none => f.required = false

/-- A field that must be there. -/
theorem Field.Holds.exists_of_required {f : Field} {items : Items} (h : f.Holds items)
    (hr : f.required = true) : ∃ w, getStr f.name items = some w ∧ f.kind w := by
  rw [Field.Holds] at h
  cases hw : getStr f.name items with
  | none =>
      rw [hw, hr] at h
      cases h
  | some w =>
      rw [hw] at h
      exact ⟨w, rfl, h⟩

/-- An object with fields. -/
def Record (fs : List Field) : Kind := fun v =>
  ∃ items, v = .dict items ∧ ∀ f ∈ fs, f.Holds items

/-! ## The schemas of types -/

section

variable {isDateTime : PyStr → Bool} {v : PyValue}

theorem valid_not {s : Schema} :
    valid isDateTime (.not s) v = true ↔ ¬ valid isDateTime s v = true := by
  rw [valid, Bool.not_eq_true', Bool.not_eq_true]

theorem valid_ifThen {c t : Schema} :
    valid isDateTime (.ifThen c t) v = true ↔
      (valid isDateTime c v = true → valid isDateTime t v = true) := by
  rw [valid, Bool.or_eq_true, Bool.not_eq_true', ← Bool.not_eq_true, ← imp_iff_not_or]

theorem valid_anyOf_nil : valid isDateTime (.anyOf []) v = true ↔ False := by
  rw [Schema.anyOf, valid_not, valid]
  exact iff_of_false (fun h => h rfl) id

/-- One of the schemas accepts the value. -/
theorem valid_anyOf_cons {s : Schema} {ss : List Schema} :
    valid isDateTime (.anyOf (s :: ss)) v = true ↔
      valid isDateTime s v = true ∨ valid isDateTime (.anyOf ss) v = true := by
  rw [Schema.anyOf, valid, Bool.or_eq_true]

theorem valid_isObject : valid isDateTime .isObject v = true ↔ ∃ items, v = .dict items := by
  constructor
  · exact PyValue.exists_dict_of_isDict
  · rintro ⟨items, rfl⟩
    rfl

theorem valid_isString : valid isDateTime .isString v = true ↔ Text v := by
  constructor
  · exact PyValue.exists_str_of_isStr
  · rintro ⟨s, rfl⟩
    rfl

theorem valid_enum {texts : List String} :
    valid isDateTime (.enum texts) v = true ↔ OneOf texts v := by
  rw [valid, List.any_eq_true]
  simp only [PyValue.pyEq_str_iff]
  rfl

/-- A string with another keyword about strings. -/
theorem valid_string {s : Schema} :
    valid isDateTime (.allOf [.isString, s]) v = true ↔
      ∃ t, v = .str t ∧ valid isDateTime s (.str t) = true := by
  simp only [valid_allOf, List.forall_mem_cons, valid_isString]
  constructor
  · rintro ⟨⟨t, rfl⟩, hs, _⟩
    exact ⟨t, rfl, hs⟩
  · rintro ⟨t, rfl, hs⟩
    exact ⟨⟨t, rfl⟩, hs, fun _ h => absurd h List.not_mem_nil⟩

/-- A string with a minimal length. -/
theorem valid_textOf {n : ℕ} :
    valid isDateTime (.allOf [.isString, .minLength n]) v = true ↔ TextOf n v := by
  rw [valid_string]
  simp only [valid, onStr, decide_eq_true_eq]
  rfl

/-- One of the listed strings. -/
theorem valid_oneOf {texts : List String} :
    valid isDateTime (.allOf [.isString, .enum texts]) v = true ↔ OneOf texts v := by
  rw [valid_string]
  simp only [valid_enum]
  constructor
  · rintro ⟨t, rfl, h⟩
    exact h
  · rintro ⟨t, ht, rfl⟩
    exact ⟨lit t, rfl, t, ht, rfl⟩

/-- `$` also matches before a newline at the end. -/
theorem fullMatch_iff {ranges : List (Char × Char)} {n : ℕ} {s : PyStr} :
    fullMatch ranges n s = true ↔
      ∃ t, (s = t ∨ s = t ++ [.scalar '\n']) ∧ t.length = n ∧ ∀ c ∈ t, inClass ranges c = true := by
  simp only [fullMatch, Bool.or_eq_true, Bool.and_eq_true, decide_eq_true_eq, List.all_eq_true]
  constructor
  · rintro (h | ⟨hlast, h⟩)
    · exact ⟨s, Or.inl rfl, h⟩
    · exact ⟨s.dropLast, Or.inr (List.dropLast_append_getLast? _ hlast).symm, h⟩
  · rintro ⟨t, rfl | rfl, h⟩
    · exact Or.inl h
    · refine Or.inr ⟨List.getLast?_concat, ?_⟩
      rwa [List.dropLast_concat]

/-- A string of characters in some ranges. -/
theorem valid_chars {ranges : List (Char × Char)} {n : ℕ} :
    valid isDateTime (.allOf [.isString, .pattern ranges n]) v = true ↔ Chars ranges n v := by
  rw [valid_string]
  simp only [valid, onStr, fullMatch_iff]
  constructor
  · rintro ⟨s, rfl, t, h, ht⟩
    exact ⟨t, by simpa only [PyValue.str.injEq] using h, ht⟩
  · rintro ⟨t, rfl | rfl, ht⟩
    · exact ⟨_, rfl, t, Or.inl rfl, ht⟩
    · exact ⟨_, rfl, t, Or.inr rfl, ht⟩

/-! ## The schemas of objects -/

/-- A property schema gives the type of a field. -/
def Types (isDateTime : PyStr → Bool) (p : String × Schema) (f : Field) : Prop :=
  p.1 = f.name ∧ ∀ w, valid isDateTime p.2 w = true ↔ f.kind w

/-- An object with typed members, some of them required. -/
theorem valid_fields {ks : List String} {ps : List (String × Schema)} {fs : List Field}
    (hks : ks.Perm ((fs.filter Field.required).map Field.name))
    (hps : List.Forall₂ (Types isDateTime) ps fs) {items : Items} :
    (valid isDateTime (.required ks) (.dict items) = true ∧
      valid isDateTime (.properties ps) (.dict items) = true) ↔ ∀ f ∈ fs, f.Holds items := by
  have hreq : (∀ k ∈ ks, ∃ w, getStr k items = some w) ↔
      ∀ f ∈ fs, f.required = true → ∃ w, getStr f.name items = some w := by
    simp only [hks.mem_iff, List.mem_map, List.mem_filter]
    constructor
    · exact fun h f hf hr => h f.name ⟨f, ⟨hf, hr⟩, rfl⟩
    · rintro h k ⟨f, ⟨hf, hr⟩, rfl⟩
      exact h f hf hr
  have hprop : (∀ p ∈ ps, ∀ w, getStr p.1 items = some w → valid isDateTime p.2 w = true) ↔
      ∀ f ∈ fs, ∀ w, getStr f.name items = some w → f.kind w := by
    clear hks hreq
    induction hps with
    | nil => simp
    | @cons p f ps fs hpf _ ih =>
        rw [List.forall_mem_cons, List.forall_mem_cons, ih, hpf.1]
        simp only [hpf.2]
  rw [valid_required, valid_properties, hreq, hprop, ← forall₂_and]
  refine forall₂_congr fun f _ => ?_
  rw [Field.Holds]
  cases getStr f.name items with
  | none => simp
  | some w => simp

/-- An object schema is a list of fields. -/
theorem valid_object {ks : List String} {ps : List (String × Schema)} {fs : List Field}
    (hks : ks.Perm ((fs.filter Field.required).map Field.name))
    (hps : List.Forall₂ (Types isDateTime) ps fs) :
    valid isDateTime (.allOf [.isObject, .required ks, .properties ps]) v = true ↔ Record fs v := by
  simp only [valid_allOf, List.forall_mem_cons, valid_isObject]
  constructor
  · rintro ⟨⟨items, rfl⟩, hreq, hprop, _⟩
    exact ⟨items, rfl, (valid_fields hks hps).mp ⟨hreq, hprop⟩⟩
  · rintro ⟨items, rfl, h⟩
    obtain ⟨hreq, hprop⟩ := (valid_fields hks hps).mpr h
    exact ⟨⟨items, rfl⟩, hreq, hprop, fun _ h => absurd h List.not_mem_nil⟩

end

end JsonSchema
