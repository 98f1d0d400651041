import Corrlog.Core.Constructors
import Corrlog.JsonSchema.Fields

/-!
# The record family

`acr-v1.json` as a reader would put it: the fields a record has and their types
(`Typed`), and three kinds of records, actions, corrections and declarations of
uncertainty, of which no record is two.  The schema accepts the objects that are
typed and of one of the kinds (`accepts_iff`), and each constructor makes records
of one kind (`record_family`).
-/

namespace Corrlog

open Python
open JsonSchema

/-! ## Types -/

/-- A nonempty string. -/
abbrev NonEmpty : Kind := TextOf 1

/-- `n` characters of base64url. -/
abbrev Base64url (n : ℕ) : Kind := Chars base64urlRanges n

/-- An object. -/
def IsObject : Kind := fun v => ∃ items, v = .dict items

/-- A date and time. -/
def Timestamp (isDateTime : PyStr → Bool) : Kind := fun v =>
  ∃ s, v = .str s ∧ isDateTime s = true

/-- The agent: an identifier, its key, and perhaps a name. -/
def agentFields : List Field :=
  [⟨"id", true, NonEmpty⟩, ⟨"name", false, Text⟩, ⟨"version", false, Text⟩,
    ⟨"publicKey", false, Base64url 43⟩]

/-- The principal. -/
def principalFields : List Field := [⟨"id", true, NonEmpty⟩, ⟨"type", true, Text⟩]

/-- A digest of 32 bytes. -/
def digestFields : List Field :=
  [⟨"alg", true, OneOf ["sha256"]⟩, ⟨"digest", true, Base64url 43⟩]

/-- The link to the record that is corrected. -/
def supersedesFields : List Field :=
  [⟨"receiptId", true, NonEmpty⟩, ⟨"digest", true, Record digestFields⟩]

/-- The action. -/
def actionFields : List Field := [⟨"type", true, NonEmpty⟩, ⟨"target", false, Text⟩]

/-- The hash of corrected content, whose digest has 16 characters or more. -/
def contentHashFields : List Field := [⟨"alg", true, Text⟩, ⟨"digest", true, TextOf 16⟩]

/-- The source of a correction. -/
def sourceFields : List Field :=
  [⟨"type", true, OneOf ["schema", "document", "database", "api", "human", "other"]⟩,
    ⟨"reference", true, NonEmpty⟩]

/-- The fix. -/
def fixFields : List Field :=
  [⟨"type", true, OneOf ["replace", "delete", "rollback", "noop", "other"]⟩,
    ⟨"contentHash", false, Record contentHashFields⟩, ⟨"note", false, Text⟩,
    ⟨"source", false, Record sourceFields⟩]

/-- The signature. -/
def signatureFields : List Field :=
  [⟨"alg", true, OneOf ["Ed25519"]⟩, ⟨"kid", true, NonEmpty⟩, ⟨"publicKey", true, Base64url 43⟩,
    ⟨"canonicalization", true, OneOf ["RFC8785"]⟩, ⟨"sig", true, Base64url 86⟩]

/-- The members whose types do not depend on the kind of the record. -/
def recordFields (isDateTime : PyStr → Bool) : List Field :=
  [⟨"correctionId", true, NonEmpty⟩, ⟨"agent", true, Record agentFields⟩,
    ⟨"principal", true, Record principalFields⟩, ⟨"supersedes", false, Record supersedesFields⟩,
    ⟨"action", false, Record actionFields⟩, ⟨"reason", false, Text⟩,
    ⟨"trigger", false, OneOf ["supersede", "check_failed", "human_flagged", "self_correction"]⟩,
    ⟨"fix", false, Record fixFields⟩, ⟨"timestamp", true, Timestamp isDateTime⟩,
    ⟨"signature", true, Record signatureFields⟩, ⟨"metadata", false, IsObject⟩,
    ⟨"kind", false, OneOf ["action", "correction", "unknown"]⟩, ⟨"subject", false, NonEmpty⟩,
    ⟨"note", false, Text⟩]

/-- The fields of a record have their types. -/
def Typed (isDateTime : PyStr → Bool) (items : Items) : Prop :=
  ∀ f ∈ recordFields isDateTime, f.Holds items

/-! ## Kinds of records -/

/-- The field is there. -/
def Present (k : String) (items : Items) : Prop := ∃ w, getStr k items = some w

/-- The record is of this kind, or does not say its kind. -/
def KindOrNone (k : String) (items : Items) : Prop :=
  getStr "kind" items = none ∨ getStr "kind" items = some (.str (lit k))

/-- An action. -/
structure IsAction (items : Items) : Prop where
  kind : KindOrNone "action" items
  action : Present "action" items
  reason : Present "reason" items
  trigger : Present "trigger" items
  fix : Present "fix" items
  supersedes : ¬ Present "supersedes" items

/-- A correction. -/
structure IsCorrection (items : Items) : Prop where
  kind : KindOrNone "correction" items
  action : Present "action" items
  reason : ∃ s, getStr "reason" items = some (.str s) ∧ s ≠ []
  trigger : Present "trigger" items
  fix : Present "fix" items
  supersedes : ∃ w, getStr "supersedes" items = some w ∧ Record supersedesFields w

/-- A declaration of uncertainty. -/
structure IsUncertainty (items : Items) : Prop where
  kind : getStr "kind" items = some (.str (lit "unknown"))
  subject : ∃ s, getStr "subject" items = some (.str s) ∧ s ≠ []
  action : ¬ Present "action" items
  fix : ¬ Present "fix" items
  supersedes : ¬ Present "supersedes" items

/-! ## The types of the schema -/

section

variable {isDateTime : PyStr → Bool} {v : PyValue}

/-- The schema of the agent says what its fields say. -/
theorem valid_agent : valid isDateTime agentSchema v = true ↔ Record agentFields v :=
  valid_object (by decide) (.cons ⟨rfl, fun _ => valid_textOf⟩ (.cons ⟨rfl, fun _ => valid_isString⟩
    (.cons ⟨rfl, fun _ => valid_isString⟩ (.cons ⟨rfl, fun _ => valid_chars⟩ .nil))))

theorem valid_principal : valid isDateTime principalSchema v = true ↔ Record principalFields v :=
  valid_object (by decide) (.cons ⟨rfl, fun _ => valid_textOf⟩
    (.cons ⟨rfl, fun _ => valid_isString⟩ .nil))

theorem valid_supersedes : valid isDateTime supersedesSchema v = true ↔ Record supersedesFields v :=
  valid_object (by decide) (.cons ⟨rfl, fun _ => valid_textOf⟩
    (.cons ⟨rfl, fun _ => valid_object (by decide) (.cons ⟨rfl, fun _ => valid_enum⟩
      (.cons ⟨rfl, fun _ => valid_chars⟩ .nil))⟩ .nil))

theorem valid_action : valid isDateTime actionSchema v = true ↔ Record actionFields v :=
  valid_object (by decide) (.cons ⟨rfl, fun _ => valid_textOf⟩
    (.cons ⟨rfl, fun _ => valid_isString⟩ .nil))

theorem valid_contentHash :
    valid isDateTime contentHashSchema v = true ↔ Record contentHashFields v :=
  valid_object (by decide) (.cons ⟨rfl, fun _ => valid_isString⟩
    (.cons ⟨rfl, fun _ => valid_textOf⟩ .nil))

theorem valid_source : valid isDateTime sourceSchema v = true ↔ Record sourceFields v :=
  valid_object (by decide) (.cons ⟨rfl, fun _ => valid_enum⟩
    (.cons ⟨rfl, fun _ => valid_textOf⟩ .nil))

theorem valid_fix : valid isDateTime fixSchema v = true ↔ Record fixFields v :=
  valid_object (by decide) (.cons ⟨rfl, fun _ => valid_oneOf⟩
    (.cons ⟨rfl, fun _ => valid_contentHash⟩ (.cons ⟨rfl, fun _ => valid_isString⟩
      (.cons ⟨rfl, fun _ => valid_source⟩ .nil))))

theorem valid_signature : valid isDateTime signatureSchema v = true ↔ Record signatureFields v :=
  valid_object (by decide) (.cons ⟨rfl, fun _ => valid_oneOf⟩ (.cons ⟨rfl, fun _ => valid_textOf⟩
    (.cons ⟨rfl, fun _ => valid_chars⟩ (.cons ⟨rfl, fun _ => valid_oneOf⟩
      (.cons ⟨rfl, fun _ => valid_chars⟩ .nil)))))

/-- A timestamp is a string that passes the date check. -/
theorem valid_timestamp :
    valid isDateTime (.allOf [.isString, .dateTime]) v = true ↔ Timestamp isDateTime v :=
  valid_string

/-- The property schemas of a record. -/
def recordSchemas : List (String × Schema) :=
  [("correctionId", nonEmptyString), ("agent", agentSchema), ("principal", principalSchema),
    ("supersedes", supersedesSchema), ("action", actionSchema), ("reason", stringSchema),
    ("trigger", .allOf [.isString,
      .enum ["supersede", "check_failed", "human_flagged", "self_correction"]]),
    ("fix", fixSchema), ("timestamp", .allOf [.isString, .dateTime]),
    ("signature", signatureSchema), ("metadata", .isObject),
    ("kind", .enum ["action", "correction", "unknown"]), ("subject", nonEmptyString),
    ("note", stringSchema)]

/-- They are the types of its fields. -/
theorem types_record : List.Forall₂ (Types isDateTime) recordSchemas (recordFields isDateTime) :=
  .cons ⟨rfl, fun _ => valid_textOf⟩ (.cons ⟨rfl, fun _ => valid_agent⟩
    (.cons ⟨rfl, fun _ => valid_principal⟩ (.cons ⟨rfl, fun _ => valid_supersedes⟩
      (.cons ⟨rfl, fun _ => valid_action⟩ (.cons ⟨rfl, fun _ => valid_isString⟩
        (.cons ⟨rfl, fun _ => valid_oneOf⟩ (.cons ⟨rfl, fun _ => valid_fix⟩
          (.cons ⟨rfl, fun _ => valid_timestamp⟩ (.cons ⟨rfl, fun _ => valid_signature⟩
            (.cons ⟨rfl, fun _ => valid_isObject⟩ (.cons ⟨rfl, fun _ => valid_enum⟩
              (.cons ⟨rfl, fun _ => valid_textOf⟩ (.cons ⟨rfl, fun _ => valid_isString⟩
                .nil)))))))))))))

/-- The keywords at the root that say nothing of the kind. -/
theorem valid_typed {items : Items} :
    (valid isDateTime (.required ["correctionId", "agent", "principal", "timestamp", "signature"])
        (.dict items) = true ∧ valid isDateTime (.properties recordSchemas) (.dict items) = true) ↔
      Typed isDateTime items :=
  valid_fields (.of_eq rfl) types_record

end

/-! ## The kinds of the schema -/

section

variable {isDateTime : PyStr → Bool} {items : Items}

/-- What a typed field holds. -/
theorem Typed.kind_of (h : Typed isDateTime items) {f : Field} (hf : f ∈ recordFields isDateTime)
    {w : PyValue} (hw : getStr f.name items = some w) : f.kind w := by
  have hholds := h f hf
  rwa [Field.Holds, hw] at hholds

/-- The kind is one of three if it is there. -/
theorem Typed.kind_cases (h : Typed isDateTime items) :
    getStr "kind" items = none ∨ getStr "kind" items = some (.str (lit "action")) ∨
      getStr "kind" items = some (.str (lit "correction")) ∨
        getStr "kind" items = some (.str (lit "unknown")) := by
  cases hk : getStr "kind" items with
  | none => exact Or.inl rfl
  | some w =>
      obtain ⟨t, ht, rfl⟩ := h.kind_of
        (f := ⟨"kind", false, OneOf ["action", "correction", "unknown"]⟩)
        (by simp [recordFields]) hk
      simp only [List.mem_cons, List.not_mem_nil, or_false] at ht
      rcases ht with rfl | rfl | rfl
      · exact Or.inr (Or.inl rfl)
      · exact Or.inr (Or.inr (Or.inl rfl))
      · exact Or.inr (Or.inr (Or.inr rfl))

theorem valid_isKind {k : String} :
    valid isDateTime (isKind k) (.dict items) = true ↔
      getStr "kind" items = some (.str (lit k)) := by
  have hconst (w : PyValue) : valid isDateTime (.const k) w = true ↔ w = .str (lit k) := by
    rw [Schema.const, valid_enum, OneOf]
    simp only [List.mem_singleton, exists_eq_left]
  simp only [isKind, valid_allOf, List.forall_mem_cons, valid_required, valid_properties,
    hconst, List.not_mem_nil, false_implies, implies_true, and_true]
  constructor
  · rintro ⟨⟨w, hw⟩, h⟩
    rw [hw, h w hw]
  · intro h
    refine ⟨⟨_, h⟩, fun w hw => ?_⟩
    rw [h] at hw
    exact (Option.some.inj hw).symm

theorem valid_has {ks : List String} :
    valid isDateTime (.required ks) (.dict items) = true ↔ ∀ k ∈ ks, Present k items :=
  valid_required

/-- The conditionals of the schema. -/
def familySchemas : List Schema :=
  [.ifThen (isKind "unknown")
      (.allOf [.required ["subject"],
        .not (.anyOf [.required ["supersedes"], .required ["fix"], .required ["action"]])]),
    .ifThen (.not (isKind "unknown")) (.required ["action", "reason", "trigger", "fix"]),
    .ifThen (.required ["supersedes"])
      (.properties [("reason", .minLength 1), ("kind", .const "correction")]),
    .ifThen (isKind "correction") (.required ["supersedes"]),
    .ifThen (isKind "action") (.not (.required ["supersedes"]))]

theorem acrV1_eq : acrV1 = .allOf [.isObject,
    .required ["correctionId", "agent", "principal", "timestamp", "signature"],
    .properties recordSchemas, .allOf familySchemas] := rfl

/-- What the conditionals say of an object. -/
structure Conditions (items : Items) : Prop where
  unknown : getStr "kind" items = some (.str (lit "unknown")) →
    Present "subject" items ∧ ¬ Present "supersedes" items ∧ ¬ Present "fix" items ∧
      ¬ Present "action" items
  known : getStr "kind" items ≠ some (.str (lit "unknown")) →
    Present "action" items ∧ Present "reason" items ∧ Present "trigger" items ∧
      Present "fix" items
  supersedes : Present "supersedes" items →
    (∀ s, getStr "reason" items = some (.str s) → s ≠ []) ∧
      ∀ w, getStr "kind" items = some w → w = .str (lit "correction")
  correction : getStr "kind" items = some (.str (lit "correction")) → Present "supersedes" items
  action : getStr "kind" items = some (.str (lit "action")) → ¬ Present "supersedes" items

theorem valid_minLength {w : PyValue} :
    valid isDateTime (.minLength 1) w = true ↔ ∀ s, w = .str s → s ≠ [] := by
  cases w with
  | str s =>
      simp only [valid, onStr, decide_eq_true_eq, PyValue.str.injEq, forall_eq',
        ← List.length_pos_iff]
      rfl
  | _ => exact iff_of_true rfl fun s h => by cases h

/-- The conditions that depend on the kind, written as implications. -/
theorem valid_conditions :
    valid isDateTime (.allOf familySchemas) (.dict items) = true ↔ Conditions items := by
  have hconst (w : PyValue) : valid isDateTime (.const "correction") w = true ↔
      w = .str (lit "correction") := by
    rw [Schema.const, valid_enum, OneOf]
    simp only [List.mem_singleton, exists_eq_left]
  simp only [familySchemas, valid_allOf, valid_ifThen, valid_not, valid_anyOf_nil,
    valid_anyOf_cons, valid_isKind, valid_has, valid_properties, valid_minLength, hconst,
    List.forall_mem_cons, List.not_mem_nil, false_implies, implies_true, and_true, or_false, not_or]
  constructor
  · rintro ⟨h1, h2, h3, h4, h5⟩
    refine ⟨h1, h2, fun hs => ?_, h4, h5⟩
    exact ⟨fun s hr => (h3 hs).1 _ hr s rfl, (h3 hs).2⟩
  · intro h
    refine ⟨h.unknown, h.known, fun hs => ⟨fun w hw s he => ?_, (h.supersedes hs).2⟩, h.correction,
      h.action⟩
    exact (h.supersedes hs).1 s (he ▸ hw)

theorem kind_ne {k k' : String} (h : k ≠ k') :
    some (PyValue.str (lit k)) ≠ some (PyValue.str (lit k')) := fun he =>
  h (lit_injective (PyValue.str.inj (Option.some.inj he)))

theorem KindOrNone.ne {k k' : String} (h : KindOrNone k items) (hk : k' ≠ k) :
    getStr "kind" items ≠ some (.str (lit k')) := by
  rcases h with h | h
  · rw [h]
    intro he
    cases he
  · rw [h]
    exact kind_ne hk.symm

/-- An action meets them: none of the other kinds applies. -/
theorem IsAction.conditions (h : IsAction items) : Conditions items where
  unknown hk := absurd hk (h.kind.ne (by decide))
  known _ := ⟨h.action, h.reason, h.trigger, h.fix⟩
  supersedes hs := absurd hs h.supersedes
  correction hk := absurd hk (h.kind.ne (by decide))
  action _ := h.supersedes

/-- A correction meets them: it has a `supersedes`. -/
theorem IsCorrection.conditions (h : IsCorrection items) : Conditions items := by
  obtain ⟨s, hs, hne⟩ := h.reason
  obtain ⟨w, hw, _⟩ := h.supersedes
  refine ⟨fun hk => absurd hk (h.kind.ne (by decide)), fun _ => ?_, fun _ => ⟨fun s' hs' => ?_, ?_⟩,
    fun _ => ⟨w, hw⟩, fun hk => absurd hk (h.kind.ne (by decide))⟩
  · exact ⟨h.action, ⟨_, hs⟩, h.trigger, h.fix⟩
  · rw [hs] at hs'
    cases hs'
    exact hne
  · intro w hw
    rcases h.kind with h0 | h0
    · rw [h0] at hw
      cases hw
    · rw [h0] at hw
      exact (Option.some.inj hw).symm

/-- An uncertainty meets them: it has a subject, and neither action nor fix nor link. -/
theorem IsUncertainty.conditions (h : IsUncertainty items) : Conditions items where
  unknown _ := by
    obtain ⟨s, hs, _⟩ := h.subject
    exact ⟨⟨_, hs⟩, h.supersedes, h.fix, h.action⟩
  known hk := absurd h.kind hk
  supersedes hs := absurd hs h.supersedes
  correction hk := absurd (h.kind.symm.trans hk) (kind_ne (by decide))
  action _ := h.supersedes

/-- What corrects has a reason, and a digest in `supersedes`. -/
theorem Conditions.isCorrection (hc : Conditions items) (h : Typed isDateTime items)
    (hs : Present "supersedes" items) (hk : KindOrNone "correction" items) :
    IsCorrection items := by
  obtain ⟨ha, ⟨w, hw⟩, ht, hf⟩ := hc.known (hk.ne (by decide))
  obtain ⟨s, rfl⟩ := h.kind_of (f := ⟨"reason", false, Text⟩) (by simp [recordFields]) hw
  obtain ⟨w', hw'⟩ := hs
  refine ⟨hk, ha, ⟨s, hw, (hc.supersedes ⟨w', hw'⟩).1 s hw⟩, ht, hf, w', hw', ?_⟩
  exact h.kind_of (f := ⟨"supersedes", false, Record supersedesFields⟩) (by simp [recordFields]) hw'

/-- In a typed record the conditionals tell the three kinds. -/
theorem conditions_iff (h : Typed isDateTime items) :
    Conditions items ↔ IsAction items ∨ IsCorrection items ∨ IsUncertainty items := by
  constructor
  · intro hc
    rcases h.kind_cases with hk | hk | hk | hk
    · -- without a kind, `supersedes` tells an action from a correction
      rcases Classical.em (Present "supersedes" items) with hs | hs
      · exact Or.inr (Or.inl (hc.isCorrection h hs (Or.inl hk)))
      · have hkind : KindOrNone "action" items := Or.inl hk
        obtain ⟨ha, hr, ht, hf⟩ := hc.known (hkind.ne (by decide))
        exact Or.inl ⟨hkind, ha, hr, ht, hf, hs⟩
    · have hkind : KindOrNone "action" items := Or.inr hk
      obtain ⟨ha, hr, ht, hf⟩ := hc.known (hkind.ne (by decide))
      exact Or.inl ⟨hkind, ha, hr, ht, hf, hc.action hk⟩
    · exact Or.inr (Or.inl (hc.isCorrection h (hc.correction hk) (Or.inr hk)))
    · obtain ⟨⟨w, hw⟩, hs, hf, ha⟩ := hc.unknown hk
      obtain ⟨s, rfl, hne⟩ :=
        h.kind_of (f := ⟨"subject", false, NonEmpty⟩) (by simp [recordFields]) hw
      exact Or.inr (Or.inr ⟨hk, ⟨s, hw, List.ne_nil_of_length_pos hne⟩, ha, hf, hs⟩)
  · intro h
    rcases h with ha | hc | hu
    · exact ha.conditions
    · exact hc.conditions
    · exact hu.conditions

/-- What the schema accepts. -/
theorem accepts_iff {v : PyValue} :
    valid isDateTime acrV1 v = true ↔ ∃ items, v = .dict items ∧ Typed isDateTime items ∧
      (IsAction items ∨ IsCorrection items ∨ IsUncertainty items) := by
  rw [acrV1_eq, valid_allOf]
  simp only [List.forall_mem_cons, valid_isObject, List.not_mem_nil, false_implies, implies_true,
    and_true]
  constructor
  · rintro ⟨⟨items, rfl⟩, hreq, hprop, hcond⟩
    have htyped := valid_typed.mp ⟨hreq, hprop⟩
    exact ⟨items, rfl, htyped, (conditions_iff htyped).mp (valid_conditions.mp hcond)⟩
  · rintro ⟨items, rfl, htyped, hfamily⟩
    obtain ⟨hreq, hprop⟩ := valid_typed.mpr htyped
    exact ⟨⟨items, rfl⟩, hreq, hprop, valid_conditions.mpr ((conditions_iff htyped).mpr hfamily)⟩

end

/-- No record is of two kinds. -/
theorem kinds_disjoint (items : Items) :
    ¬ (IsAction items ∧ IsCorrection items) ∧ ¬ (IsAction items ∧ IsUncertainty items) ∧
      ¬ (IsCorrection items ∧ IsUncertainty items) := by
  refine ⟨fun h => ?_, fun h => h.2.action h.1.action, fun h => h.2.action h.1.action⟩
  obtain ⟨w, hw, _⟩ := h.2.supersedes
  exact h.1.supersedes ⟨w, hw⟩

/-! ## The constructors -/

section

variable {P : Platform} {privateKey : P.PrivateKey} {sup : Option PyValue}

/-- The value is a dict with a property of its items. -/
def DictWith (p : Items → Prop) (v : PyValue) : Prop := ∃ items, v = .dict items ∧ p items

/-- No assignment removes a member. -/
theorem Present.setStr {k k' : String} {v : PyValue} {items : Items} (h : Present k items) :
    Present k (setStr k' v items) := by
  by_cases hk : k = k'
  · exact ⟨v, hk ▸ getStr_setStr_self k v items⟩
  · obtain ⟨w, hw⟩ := h
    exact ⟨w, (getStr_setStr_ne hk v items).trans hw⟩

theorem DictWith.setIn {k k1 k2 : String} {body body' v : PyValue} (h : DictWith (Present k) body)
    (hset : Corrlog.setIn body k1 k2 v = .ok body') : DictWith (Present k) body' := by
  obtain ⟨items, rfl, hk⟩ := h
  obtain ⟨_, inner, he, _, rfl⟩ := setIn_eq_ok.mp hset
  cases he
  exact ⟨_, rfl, hk.setStr⟩

theorem DictWith.setInIf {cond : Bool} {k k1 k2 : String} {body body' v : PyValue}
    (h : DictWith (Present k) body) (hset : Corrlog.setInIf cond body k1 k2 v = .ok body') :
    DictWith (Present k) body' := by
  cases cond with
  | true => exact h.setIn hset
  | false => cases hset; exact h

/-- A hash that is put in removes none either. -/
theorem DictWith.setHash {k k1 k2 : String} {body body' v : PyValue}
    (h : DictWith (Present k) body) (hset : Corrlog.setHash P body k1 k2 v = .ok body') :
    DictWith (Present k) body' := by
  rw [Corrlog.setHash.eq_def] at hset
  split at hset
  next => cases hset; exact h
  next =>
    obtain ⟨data, _, hset⟩ := bind_eq_ok.mp hset
    exact h.setIn hset

/-- Every body that `record` makes has an action. -/
theorem recordBody_action {env : Env} {a : RecordArgs} {body : PyValue}
    (h : recordBody P privateKey env a = .ok body) : DictWith (Present "action") body := by
  obtain ⟨b1, h1, h⟩ := bind_eq_ok.mp h
  obtain ⟨b2, h2, h⟩ := bind_eq_ok.mp h
  obtain ⟨_, _, h⟩ := bind_eq_ok.mp h
  obtain ⟨_, _, h⟩ := bind_eq_ok.mp h
  obtain ⟨b3, h3, h4⟩ := bind_eq_ok.mp h
  have hb1 : DictWith (Present "action") b1 :=
    DictWith.setInIf ⟨_, rfl, _, (getStr_members _ _).trans rfl⟩ h1
  exact ((hb1.setInIf h2).setHash h3).setHash h4

/-- Every body that `unknown` makes says its kind. -/
theorem unknownBody_kind {env : Env} {a : UnknownArgs} {body : PyValue}
    (h : unknownBody P privateKey env a = .ok body) :
    DictWith (fun items => getStr "kind" items = some (.str (lit "unknown"))) body := by
  rw [unknownBody, setInIf] at h
  split at h
  next =>
    obtain ⟨items, inner, he, _, rfl⟩ := setIn_eq_ok.mp h
    cases he
    exact ⟨_, rfl, (getStr_setStr_ne (by decide) _ _).trans ((getStr_members _ _).trans rfl)⟩
  next =>
    cases h
    exact ⟨_, rfl, (getStr_members _ _).trans rfl⟩

/-- What the schema accepts has one of the three forms. -/
theorem typed_of_valid {items : Items} (h : validateRecord P (.dict items) = .ok ()) :
    Typed P.isDateTime items ∧ (IsAction items ∨ IsCorrection items ∨ IsUncertainty items) := by
  obtain ⟨_, he, htyped⟩ := accepts_iff.mp ((validateRecord_eq_ok P).mp h).1
  cases he
  exact htyped

/-- What a constructor returns has the fields of its body and is accepted. -/
theorem accepted_of_sign {b kid r : PyValue} {data : Bytes} (hb : IsBody privateKey sup b)
    (hsign : sign P b privateKey kid = .ok (data, r)) (hvalid : validateRecord P r = .ok ()) :
    ∃ items items', b = .dict items ∧ r = .dict items' ∧
      (∀ k, k ≠ "signature" → getStr k items' = getStr k items) ∧
      getStr "supersedes" items = sup ∧ Typed P.isDateTime items' ∧
      (IsAction items' ∨ IsCorrection items' ∨ IsUncertainty items') := by
  obtain ⟨items, agent, rfl, hbody⟩ := hb
  obtain ⟨_, rfl⟩ := sign_eq_ok hsign
  exact ⟨items, _, rfl, rfl, fun k hk => getStr_setStr_ne hk _ _, hbody.sup_eq,
    typed_of_valid hvalid⟩

theorem not_present {k : String} {items : Items} (h : getStr k items = none) :
    ¬ Present k items := by
  rintro ⟨w, hw⟩
  rw [h] at hw
  cases hw

/-- What `record` returns is an action. -/
theorem record_isAction {env : Env} {a : RecordArgs} {r : PyValue}
    (h : (record P privateKey env a).result = .ok r) :
    DictWith (fun items => Typed P.isDateTime items ∧ IsAction items) r := by
  obtain ⟨b, data, hbody, _, hsign, hvalid⟩ := finish_returned h
  obtain ⟨items, items', rfl, rfl, hget, hsup, htyped, hfamily⟩ :=
    accepted_of_sign (recordBody_isBody hbody) hsign hvalid
  obtain ⟨_, he, w, hw⟩ := recordBody_action hbody
  cases he
  refine ⟨items', rfl, htyped, hfamily.resolve_right ?_⟩
  rintro (hc | hu)
  · obtain ⟨w, hw, _⟩ := hc.supersedes
    exact not_present ((hget _ (by decide)).trans hsup) ⟨w, hw⟩
  · exact hu.action ⟨w, (hget _ (by decide)).trans hw⟩

/-- What `retract` returns is a correction. -/
theorem retract_isCorrection {env : Env} {a : RetractArgs} {r : PyValue}
    (h : (retract P privateKey env a).result = .ok r) :
    DictWith (fun items => Typed P.isDateTime items ∧ IsCorrection items) r := by
  obtain ⟨b, data, hbody, _, hsign, hvalid⟩ := finish_returned h
  obtain ⟨sup, _, hb⟩ := retractBody_isBody hbody
  obtain ⟨items, items', rfl, rfl, hget, hsup, htyped, hfamily⟩ := accepted_of_sign hb hsign hvalid
  have hpresent : Present "supersedes" items' := ⟨sup, (hget _ (by decide)).trans hsup⟩
  refine ⟨items', rfl, htyped, ?_⟩
  rcases hfamily with ha | hc | hu
  · exact absurd hpresent ha.supersedes
  · exact hc
  · exact absurd hpresent hu.supersedes

/-- What `unknown` returns is an uncertainty. -/
theorem unknown_isUncertainty {env : Env} {a : UnknownArgs} {r : PyValue}
    (h : (unknown P privateKey env a).result = .ok r) :
    DictWith (fun items => Typed P.isDateTime items ∧ IsUncertainty items) r := by
  obtain ⟨b, data, hbody, _, hsign, hvalid⟩ := finish_returned h
  obtain ⟨items, items', rfl, rfl, hget, _, htyped, hfamily⟩ :=
    accepted_of_sign (unknownBody_isBody hbody) hsign hvalid
  obtain ⟨_, he, hkind⟩ := unknownBody_kind hbody
  cases he
  have hkind' := (hget "kind" (by decide)).trans hkind
  refine ⟨items', rfl, htyped, ?_⟩
  rcases hfamily with ha | hc | hu
  · exact absurd hkind' (ha.kind.ne (by decide))
  · exact absurd hkind' (hc.kind.ne (by decide))
  · exact hu

end

/-- The schema accepts the typed objects of exactly one of three kinds, and each
constructor returns records of its own kind. -/
theorem record_family :
    (∀ isDateTime v, valid isDateTime acrV1 v = true ↔ ∃ items, v = .dict items ∧
      Typed isDateTime items ∧ (IsAction items ∨ IsCorrection items ∨ IsUncertainty items)) ∧
    (∀ items, ¬ (IsAction items ∧ IsCorrection items) ∧
      ¬ (IsAction items ∧ IsUncertainty items) ∧ ¬ (IsCorrection items ∧ IsUncertainty items)) ∧
    ∀ (P : Platform) (privateKey : P.PrivateKey) env r,
      (∀ a, (record P privateKey env a).result = .ok r →
        DictWith (fun items => Typed P.isDateTime items ∧ IsAction items) r) ∧
      (∀ a, (retract P privateKey env a).result = .ok r →
        DictWith (fun items => Typed P.isDateTime items ∧ IsCorrection items) r) ∧
      ∀ a, (unknown P privateKey env a).result = .ok r →
        DictWith (fun items => Typed P.isDateTime items ∧ IsUncertainty items) r := by
  refine ⟨fun _ _ => accepts_iff, kinds_disjoint, fun P privateKey env r => ⟨?_, ?_, ?_⟩⟩
  · exact fun a h => record_isAction h
  · exact fun a h => retract_isCorrection h
  · exact fun a h => unknown_isUncertainty h

/-- The call that made the first vector returns an action. -/
theorem record_family_vectors :
    ∃ r, (record Vector.platform () Vector.env Vector.recordArgs).result =
    .ok r ∧ DictWith (fun items => Typed Vector.platform.isDateTime items ∧ IsAction items) r := by
  have hok : (record Vector.platform () Vector.env Vector.recordArgs).result.isOk = true := by
    decide +kernel
  have hr := Vector.result_eq_returned hok
  exact ⟨_, hr, (record_family.2.2 Vector.platform () Vector.env _).1 Vector.recordArgs hr⟩

end Corrlog
