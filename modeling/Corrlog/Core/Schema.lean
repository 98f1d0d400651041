import Corrlog.JsonSchema.Keywords
import Corrlog.Python.Base64

/-!
# The record schema

`acr-v1.json`: the record family of actions, corrections and declarations of
uncertainty.  What the code relies on once a record is accepted is collected in
`acrV1_shape`.
-/

namespace Corrlog

open Python
open JsonSchema JsonSchema.Schema

/-! ## The parts -/

/-- `{"type": "string"}`. -/
def stringSchema : Schema := isString

/-- `{"type": "string", "minLength": 1}`. -/
def nonEmptyString : Schema := allOf [isString, minLength 1]

/-- `[A-Za-z0-9_-]`. -/
def base64urlRanges : List (Char × Char) :=
  [('A', 'Z'), ('a', 'z'), ('0', '9'), ('_', '_'), ('-', '-')]

/-- `{"type": "string", "pattern": "^[A-Za-z0-9_-]{n}$"}`. -/
def base64urlSchema (n : ℕ) : Schema := allOf [isString, pattern base64urlRanges n]

/-- `properties.agent`. -/
def agentSchema : Schema :=
  allOf [isObject, required ["id"],
    properties [("id", nonEmptyString), ("name", stringSchema), ("version", stringSchema),
      ("publicKey", base64urlSchema 43)]]

/-- `properties.principal`. -/
def principalSchema : Schema :=
  allOf [isObject, required ["id", "type"],
    properties [("id", nonEmptyString), ("type", stringSchema)]]

/-- `properties.supersedes`. -/
def supersedesSchema : Schema :=
  allOf [isObject, required ["receiptId", "digest"],
    properties [("receiptId", nonEmptyString),
      ("digest", allOf [isObject, required ["alg", "digest"],
        properties [("alg", const "sha256"), ("digest", base64urlSchema 43)]])]]

/-- `properties.action`. -/
def actionSchema : Schema :=
  allOf [isObject, required ["type"],
    properties [("type", nonEmptyString), ("target", stringSchema)]]

/-- `properties.fix.properties.contentHash`. -/
def contentHashSchema : Schema :=
  allOf [isObject, required ["alg", "digest"],
    properties [("alg", stringSchema), ("digest", allOf [isString, minLength 16])]]

/-- `properties.fix.properties.source`. -/
def sourceSchema : Schema :=
  allOf [isObject, required ["type", "reference"],
    properties [("type", enum ["schema", "document", "database", "api", "human", "other"]),
      ("reference", nonEmptyString)]]

/-- `properties.fix`. -/
def fixSchema : Schema :=
  allOf [isObject, required ["type"],
    properties [
      ("type", allOf [isString, enum ["replace", "delete", "rollback", "noop", "other"]]),
      ("contentHash", contentHashSchema), ("note", stringSchema), ("source", sourceSchema)]]

/-- `properties.signature`. -/
def signatureSchema : Schema :=
  allOf [isObject, required ["alg", "kid", "canonicalization", "sig", "publicKey"],
    properties [("alg", allOf [isString, const "Ed25519"]), ("kid", nonEmptyString),
      ("publicKey", base64urlSchema 43),
      ("canonicalization", allOf [isString, const "RFC8785"]), ("sig", base64urlSchema 86)]]

/-- `{"required": ["kind"], "properties": {"kind": {"const": k}}}`. -/
def isKind (k : String) : Schema := allOf [required ["kind"], properties [("kind", const k)]]

/-! ## The record -/

/-- `acr-v1.json`. -/
def acrV1 : Schema :=
  allOf [isObject,
    required ["correctionId", "agent", "principal", "timestamp", "signature"],
    properties [("correctionId", nonEmptyString), ("agent", agentSchema),
      ("principal", principalSchema), ("supersedes", supersedesSchema), ("action", actionSchema),
      ("reason", stringSchema),
      ("trigger",
        allOf [isString, enum ["supersede", "check_failed", "human_flagged", "self_correction"]]),
      ("fix", fixSchema), ("timestamp", allOf [isString, dateTime]), ("signature", signatureSchema),
      ("metadata", isObject), ("kind", enum ["action", "correction", "unknown"]),
      ("subject", nonEmptyString), ("note", stringSchema)],
    allOf [
      ifThen (isKind "unknown")
        (allOf [required ["subject"],
          .not (anyOf [required ["supersedes"], required ["fix"], required ["action"]])]),
      ifThen (.not (isKind "unknown")) (required ["action", "reason", "trigger", "fix"]),
      ifThen (required ["supersedes"])
        (properties [("reason", minLength 1), ("kind", const "correction")]),
      ifThen (isKind "correction") (required ["supersedes"]),
      ifThen (isKind "action") (.not (required ["supersedes"]))]]

/-- What the code looks up in an accepted record. -/
structure Shape (items : Items) (id : PyStr) (agent sigMeta : Items) : Prop where
  id_eq : getStr "correctionId" items = some (.str id)
  id_ne_nil : id ≠ []
  agent_eq : getStr "agent" items = some (.dict agent)
  sigMeta_eq : getStr "signature" items = some (.dict sigMeta)

section

variable {isDateTime : PyStr → Bool}

theorem valid_nonEmptyString {v : PyValue} (h : valid isDateTime nonEmptyString v = true) :
    ∃ s, v = .str s ∧ s ≠ [] := by
  rw [nonEmptyString, valid_allOf] at h
  obtain ⟨s, rfl⟩ := PyValue.exists_str_of_isStr (h isString (by simp))
  have hlen := h (minLength 1) (by simp)
  rw [valid, onStr, decide_eq_true_eq] at hlen
  exact ⟨s, rfl, List.ne_nil_of_length_pos hlen⟩

/-- An object schema is met by dicts. -/
theorem exists_dict_of_valid {ss : List Schema} {v : PyValue}
    (h : valid isDateTime (allOf (isObject :: ss)) v = true) : ∃ items, v = .dict items :=
  PyValue.exists_dict_of_isDict (valid_allOf.mp h _ List.mem_cons_self)

/-- Only objects are accepted, and what the code looks up in them is there. -/
theorem acrV1_shape {v : PyValue} (h : valid isDateTime acrV1 v = true) :
    ∃ items id agent sigMeta, v = .dict items ∧ Shape items id agent sigMeta := by
  obtain ⟨items, rfl⟩ := exists_dict_of_valid h
  rw [acrV1, valid_allOf, List.forall_mem_cons, List.forall_mem_cons, List.forall_mem_cons] at h
  obtain ⟨_, hreq, hprop, _⟩ := h
  rw [valid_required] at hreq
  rw [valid_properties] at hprop
  obtain ⟨id, hid⟩ := hreq "correctionId" (by simp)
  obtain ⟨agent, hagent⟩ := hreq "agent" (by simp)
  obtain ⟨sigMeta, hsig⟩ := hreq "signature" (by simp)
  obtain ⟨s, rfl, hs⟩ :=
    valid_nonEmptyString (hprop ("correctionId", nonEmptyString) (by simp) id hid)
  obtain ⟨ag, rfl⟩ := exists_dict_of_valid (hprop ("agent", agentSchema) (by simp) agent hagent)
  obtain ⟨sm, rfl⟩ :=
    exists_dict_of_valid (hprop ("signature", signatureSchema) (by simp) sigMeta hsig)
  exact ⟨items, s, ag, sm, rfl, hid, hs, hagent, hsig⟩

end

end Corrlog
