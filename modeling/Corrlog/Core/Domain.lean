import Corrlog.Core.Checkpoint
import Corrlog.Core.Entries

/-!
# The domain of the constructors

A constructor checks some of its arguments itself, leaves others to the schema and
others to the canonical text, in an order of its own.  Taken together this says of
each argument alone, and of no two but the type and the reference of a source, what
it may be: names are strings that are not empty, contents have a text that can be
hashed, and so on (`RecordDomain`, `RetractDomain`, `UnknownDomain`).

A call returns exactly if its arguments are in the domain (`constructors_return`).  So it
depends neither on the key nor on the surroundings.
-/

namespace Corrlog

open Python
open JsonSchema

variable {P : Platform} {privateKey : P.PrivateKey}

/-! ## Arguments -/

/-- A string that can be signed, possibly an empty one. -/
def IsTextValue (v : PyValue) : Prop := ∃ s, v = .str s ∧ noSurrogates s = true

/-- A value of which the hash can be taken. -/
def Hashable (P : Platform) (v : PyValue) : Prop :=
  if v.isDict then Signable v else ∃ s, pyStr P v = some s ∧ noSurrogates s = true

/-- What is left of a dict can be signed when these keys are set. -/
def SignableBut (ks : List String) (items : Items) : Prop :=
  ∀ k v, getKey k items = some v → (∀ h ∈ ks, k ≠ .str (lit h)) → k.JsonAble ∧ Signable v

/-- The arguments that all constructors take.  The keys are those of the hashes that are
set in the metadata. -/
structure CommonDomain (P : Platform) (hashes : List String) (a : Common) : Prop where
  agentId : IsNameValue a.agentId.val
  principalId : IsNameValue a.principalId.val
  principalType : IsTextValue a.principalType.val
  kid : isNone a.kid.val = false → IsNameValue a.kid.val
  metadata : isNone a.metadata.val = false →
    ∃ items, a.metadata.val = .dict items ∧ SignableBut hashes items
  correctionId : isNone a.correctionId.val = false → IsNameValue a.correctionId.val
  timestamp : isNone a.timestamp.val = false →
    ∃ s, a.timestamp.val = .str s ∧ noSurrogates s = true ∧ P.isDateTime s = true

/-- The key of a hash that is set if there is a value. -/
def hashKey (k : String) (v : PyValue) : List String := if isNone v then [] else [k]

/-- The keys of the hashes of a record. -/
def RecordArgs.hashes (a : RecordArgs) : List String :=
  hashKey "inputHash" a.actionArgs.val ++ hashKey "outputHash" a.actionResult.val

/-- The arguments for which `record` returns. -/
structure RecordDomain (P : Platform) (a : RecordArgs) : Prop where
  common : CommonDomain P a.hashes a.toCommon
  agentName : truthy a.agentName.val = true → IsTextValue a.agentName.val
  actionType : IsNameValue a.actionType.val
  actionTarget : truthy a.actionTarget.val = true → IsTextValue a.actionTarget.val
  actionArgs : isNone a.actionArgs.val = false → Hashable P a.actionArgs.val
  actionResult : isNone a.actionResult.val = false → Hashable P a.actionResult.val

/-- `prior_record.get("correctionId") or prior_record.get("receiptId")`. -/
def receiptIdOf (prior : PyValue) : Except PyErr PyValue := do
  let correctionId ← prior.getMethod "correctionId" .none
  orElse correctionId (prior.getMethod "receiptId" .none)

/-- `prior_record.get("action", {}).get("type", "unknown")`. -/
def actionTypeOf (prior : PyValue) : Except PyErr PyValue := do
  let action ← prior.getMethod "action" (dictOf [])
  action.getMethod "type" (.str (lit "unknown"))

/-- A value that can be corrected. -/
structure Retractable (prior : PyValue) : Prop where
  json : prior.JsonAble
  receiptId : ∃ v, receiptIdOf prior = .ok v ∧ IsNameValue v
  actionType : ∃ v, actionTypeOf prior = .ok v ∧ IsNameValue v

/-- The arguments for which `retract` returns. -/
structure RetractDomain (P : Platform) (a : RetractArgs) : Prop where
  common : CommonDomain P [] a.toCommon
  prior : Retractable a.priorRecord.val
  reason : IsNameValue a.reason.val
  trigger : OneOf validTriggers a.trigger.val
  fixType : OneOf validFixTypes a.fixType.val
  fixNote : truthy a.fixNote.val = true → IsTextValue a.fixNote.val
  correctedContent : isNone a.correctedContent.val = false → Hashable P a.correctedContent.val
  source : isNone a.sourceType.val = true ∧ isNone a.sourceReference.val = true ∨
    OneOf validSourceTypes a.sourceType.val ∧ IsNameValue a.sourceReference.val

/-- The arguments for which `unknown` returns. -/
structure UnknownDomain (P : Platform) (a : UnknownArgs) : Prop where
  common : CommonDomain P [] a.toCommon
  agentName : truthy a.agentName.val = true → IsTextValue a.agentName.val
  subject : IsNameValue a.subject.val
  note : truthy a.note.val = true → IsTextValue a.note.val

/-- The arguments of the call are in the domain of its constructor. -/
def Call.Domain (P : Platform) : Call → Prop
  | .record _ a => RecordDomain P a
  | .retract _ a => RetractDomain P a
  | .unknown _ a => UnknownDomain P a

/-- The surroundings of the call. -/
def Call.env : Call → Env
  | .record env _ => env
  | .retract env _ => env
  | .unknown env _ => env

/-! ## Displays

Each body is a dict display in which some values have been replaced. -/

/-- A display with one value set. -/
def put (k : String) (v : PyValue) : List (String × PyValue) → List (String × PyValue)
  | [] => [(k, v)]
  | (k', v') :: kvs => if k' = k then (k, v) :: kvs else (k', v') :: put k v kvs

/-- An assignment to a literal key of a literal dict. -/
theorem setItem_dictOf (k : String) (v : PyValue) (kvs : List (String × PyValue)) :
    (dictOf kvs).setItem k v = .ok (dictOf (put k v kvs)) := by
  refine congrArg (fun items => Except.ok (PyValue.dict items)) ?_
  induction kvs with
  | nil => rfl
  | cons kv kvs ih =>
      have hcons (kv : String × PyValue) (kvs : List (String × PyValue)) :
          members (kv :: kvs) = (.str (lit kv.1), kv.2) :: members kvs := rfl
      rw [hcons, setStr, setKey, put]
      by_cases h : kv.1 = k
      · rw [if_pos (congrArg PyKey.str (congrArg lit h)), if_pos h]
        rfl
      · rw [if_neg fun he => h (lit_injective (PyKey.str.inj he)), if_neg h, hcons, ← ih]
        rfl

theorem put_of_lookup {k : String} {v : PyValue} {kvs : List (String × PyValue)}
    (h : kvs.lookup k = some v) : put k v kvs = kvs := by
  induction kvs with
  | nil => cases h
  | cons kv kvs ih =>
      rw [put]
      by_cases hk : kv.1 = k
      · rw [List.lookup_cons, beq_iff_eq.mpr hk.symm, Option.some.injEq] at h
        rw [if_pos hk, ← hk, ← h]
      · rw [List.lookup_cons, beq_eq_false_iff_ne.mpr (Ne.symm hk)] at h
        rw [if_neg hk, ih h]

/-- A new key goes to the end. -/
theorem put_append {k : String} {v : PyValue} {kvs : List (String × PyValue)}
    (h : k ∉ kvs.map Prod.fst) : put k v kvs = kvs ++ [(k, v)] := by
  induction kvs with
  | nil => rfl
  | cons kv kvs ih =>
      rw [List.map_cons, List.mem_cons, not_or] at h
      rw [put, if_neg (Ne.symm h.1), ih h.2]
      rfl

/-- An item that is there on a condition. -/
def itemIf (cond : Bool) (k : String) (v : PyValue) : List (String × PyValue) :=
  if cond then [(k, v)] else []

section

variable {kvs inner : List (String × PyValue)} {k1 k2 : String} {v w : PyValue}

theorem setIn_dictOf (h : kvs.lookup k1 = some w) :
    setIn (dictOf kvs) k1 k2 v = (w.setItem k2 v).map fun w' => dictOf (put k1 w' kvs) := by
  rw [setIn, getItem_dictOf h]
  show (w.setItem k2 v >>= fun w' => (dictOf kvs).setItem k1 w') = _
  cases w.setItem k2 v with
  | error e => rfl
  | ok w' => exact setItem_dictOf k1 w' kvs

/-- A field that is set on a condition. -/
theorem setInIf_dictOf {cond : Bool} (h : kvs.lookup k1 = some (dictOf inner))
    (hnew : k2 ∉ inner.map Prod.fst) : setInIf cond (dictOf kvs) k1 k2 v =
      .ok (dictOf (put k1 (dictOf (inner ++ itemIf cond k2 v)) kvs)) := by
  rw [setInIf, itemIf]
  split
  · rw [setIn_dictOf h, setItem_dictOf, ← put_append hnew]
    rfl
  · rw [List.append_nil, put_of_lookup h]

/-- The hash of a value, if there is one, as a field of an object. -/
def withHash (P : Platform) (k : String) (v w : PyValue) : Except PyErr PyValue :=
  if isNone v then .ok w else do
    let data ← contentBytes P v
    w.setItem k (hashObject P data)

/-- A hash that is put in a dict of a literal dict. -/
theorem setHash_dictOf (h : kvs.lookup k1 = some w) :
    setHash P (dictOf kvs) k1 k2 v = (withHash P k2 v w).map fun w' => dictOf (put k1 w' kvs) := by
  rw [withHash, setHash.eq_def]
  split
  next =>
    rw [isNone, if_pos rfl, Except.map, put_of_lookup h]
  next hv =>
    have hnone : isNone v = false := by
      cases v with
      | none => exact absurd rfl hv
      | _ => rfl
    rw [hnone]
    cases hdata : contentBytes P v with
    | error e => rfl
    | ok data => exact setIn_dictOf h

end

/-! ## Values -/

/-- A name is a value that the schema takes and that can be signed. -/
theorem isNameValue_iff {v : PyValue} : IsNameValue v ↔ NonEmpty v ∧ Signable v := by
  constructor
  · rintro ⟨s, rfl, hne, hs⟩
    exact ⟨nonEmpty_str.mpr hne, signable_str.mpr hs⟩
  · rintro ⟨⟨s, rfl, hne⟩, hs⟩
    exact ⟨s, rfl, List.ne_nil_of_length_pos hne, signable_str.mp hs⟩

/-- A text is a string that can be signed, perhaps an empty one. -/
theorem isTextValue_iff {v : PyValue} : IsTextValue v ↔ Text v ∧ Signable v := by
  constructor
  · rintro ⟨s, rfl, hs⟩
    exact ⟨⟨s, rfl⟩, signable_str.mpr hs⟩
  · rintro ⟨⟨s, rfl⟩, hs⟩
    exact ⟨s, rfl, signable_str.mp hs⟩

/-- An integer can be signed if binary64 has it exactly. -/
theorem signable_int {n : ℤ} : Signable (.int n) ↔ Exact n := by
  constructor
  · exact fun h => h.exact [] n rfl
  · intro h
    refine ⟨fun path m hm => ?_, ?_⟩
    · cases path with
      | nil =>
          cases hm
          exact h
      | cons s path => cases s <;> cases hm
    · rw [PyValue.jsonAble_int]
      cases hx : Binary64.ofInt n with
      | finite neg m => rfl
      | inf neg => rw [Exact, hx] at h; cases h
      | nan => rw [Exact, hx] at h; cases h

theorem signable_list {xs : List PyValue} (h : ∀ x ∈ xs, Signable x) : Signable (.list xs) where
  exact path n hn := by
    cases path with
    | nil => cases hn
    | cons s path =>
        obtain ⟨w, hw, hw'⟩ := Option.bind_eq_some_iff.mp hn
        cases s with
        | key k => cases hw
        | index i => exact (h w (List.mem_of_getElem? hw)).exact path n hw'
  json := (PyValue.jsonAble_list xs).mpr fun x hx => (h x hx).json

/-- A string has a UTF-8 encoding unless there is a surrogate in it. -/
theorem exists_encodeUtf8 {s : PyStr} :
    (∃ data, encodeUtf8 s = some data) ↔ noSurrogates s = true := by
  constructor
  · rintro ⟨data, h⟩
    obtain ⟨cs, hcs, -⟩ := Option.map_eq_some_iff.mp h
    rw [chars?_eq_some_iff.mp hcs, noSurrogates_ofChars]
  · intro h
    obtain ⟨cs, rfl⟩ := exists_chars_of_noSurrogates h
    exact ⟨_, encodeUtf8_ofChars cs⟩

/-- What is checked and encoded of an argument whose hash is taken. -/
theorem hashable_iff {v : PyValue} (hwf : v.WF) :
    (checkDict v = .ok () ∧ (isNone v = false → ∃ data, contentBytes P v = .ok data)) ↔
      (isNone v = false → Hashable P v) := by
  rw [checkDict, contentBytes, Hashable]
  cases hd : v.isDict with
  | true =>
      obtain ⟨items, rfl⟩ := PyValue.exists_dict_of_isDict hd
      simp only [if_true, isNone, true_implies, signable_iff hwf]
  | false =>
      simp only [Bool.false_eq_true, if_false, true_and]
      refine forall_congr' fun _ => ?_
      cases hs : pyStr P v with
      | none => simp [builtinError]
      | some s =>
          rw [Option.map_some]
          simp only [Option.some.injEq, exists_eq_left', ← exists_encodeUtf8]
          cases encodeUtf8 s with
          | none => simp [builtinError]
          | some data => simp

theorem signable_dict_iff {items : Items} (hwf : (PyValue.dict items).WF) :
    Signable (.dict items) ↔ SignableBut [] items := by
  rw [signable_dict hwf, SignableBut]
  simp

/-- A value that is set does not have to be signable before. -/
theorem signableBut_setStr {ks : List String} {k : String} {v : PyValue} {items : Items}
    (hsign : Signable v) : SignableBut ks (setStr k v items) ↔ SignableBut (k :: ks) items := by
  constructor
  · intro h k' v hv hks
    obtain ⟨hk, hks⟩ := List.forall_mem_cons.mp hks
    exact h k' v ((getKey_setKey_ne hk _ _).trans hv) hks
  · intro h k' v hv hks
    rcases eq_or_ne k' (.str (lit k)) with rfl | hne
    · rw [setStr, getKey_setKey_self, Option.some.injEq] at hv
      exact ⟨noSurrogates_lit k, hv ▸ hsign⟩
    · exact h k' v ((getKey_setKey_ne hne _ _).symm.trans hv) (List.forall_mem_cons.mpr ⟨hne, hks⟩)

/-- A hash can be added to a dict exactly if the content can be hashed; what was under its key
does not matter. -/
theorem withHash_iff {ks : List String} {k : String} {v w : PyValue} :
    (∃ items, withHash P k v w = .ok (.dict items) ∧ SignableBut ks items) ↔
      (isNone v = false → ∃ data, contentBytes P v = .ok data) ∧
        ∃ items, w = .dict items ∧ SignableBut (hashKey k v ++ ks) items := by
  rw [withHash, hashKey]
  cases isNone v with
  | true => simp
  | false =>
      simp only [Bool.false_eq_true, if_false, true_implies]
      constructor
      · rintro ⟨items, h, hs⟩
        obtain ⟨data, hdata, h⟩ := bind_eq_ok.mp h
        obtain ⟨old, rfl, hitems⟩ := PyValue.setItem_eq_ok.mp h
        cases hitems
        exact ⟨⟨data, hdata⟩, old, rfl, (signableBut_setStr (signable_hashObject data)).mp hs⟩
      · rintro ⟨⟨data, hdata⟩, items, rfl, hs⟩
        exact ⟨_, bind_eq_ok.mpr ⟨data, hdata, rfl⟩,
          (signableBut_setStr (signable_hashObject data)).mpr hs⟩

/-! ## Actions -/

/-- The body of a record. -/
def recordDisplay (env : Env) (a : RecordArgs) (agent action metadata : PyValue) :
    List (String × PyValue) :=
  [("correctionId", a.idField env), ("agent", agent), ("principal", a.principalField),
    ("action", action), ("reason", .str []), ("trigger", .str (lit "supersede")),
    ("fix", dictOf [("type", .str (lit "noop"))]), ("timestamp", a.timestampField env),
    ("metadata", metadata)]

/-- Its agent, with a name if there is one. -/
def agentDisplay (privateKey : P.PrivateKey) (a : Common) (name : PyValue) : PyValue :=
  dictOf ([("id", a.agentId.val), ("publicKey", .str (keyText P privateKey))] ++
    itemIf (truthy name) "name" name)

/-- The `action` of a record. -/
def actionDisplay (a : RecordArgs) : PyValue :=
  dictOf ([("type", a.actionType.val)] ++
    itemIf (truthy a.actionTarget.val) "target" a.actionTarget.val)

/-- The body of a record is its literal dict, with the hashes of what has been checked. -/
theorem recordBody_eq_ok {env : Env} {a : RecordArgs} {b : PyValue} :
    recordBody P privateKey env a = .ok b ↔
      (checkDict a.actionArgs.val = .ok () ∧ checkDict a.actionResult.val = .ok ()) ∧
        ∃ m1 m2, withHash P "inputHash" a.actionArgs.val a.metadataField = .ok m1 ∧
          withHash P "outputHash" a.actionResult.val m1 = .ok m2 ∧ dictOf (recordDisplay env a
            (agentDisplay privateKey a.toCommon a.agentName.val) (actionDisplay a) m2) = b := by
  have hname (action metadata : PyValue) :
      setInIf (truthy a.agentName.val) (dictOf (recordDisplay env a
        (a.agentField P privateKey) action metadata)) "agent" "name" a.agentName.val =
          .ok (dictOf (recordDisplay env a
            (agentDisplay privateKey a.toCommon a.agentName.val) action metadata)) :=
    (setInIf_dictOf rfl (by simp)).trans rfl
  have htarget (agent metadata : PyValue) :
      setInIf (truthy a.actionTarget.val) (dictOf (recordDisplay env a agent
        (dictOf [("type", a.actionType.val)]) metadata)) "action" "target" a.actionTarget.val =
          .ok (dictOf (recordDisplay env a agent (actionDisplay a) metadata)) :=
    (setInIf_dictOf rfl (by simp)).trans rfl
  have hhash (k : String) (v agent action metadata : PyValue) :
      setHash P (dictOf (recordDisplay env a agent action metadata)) "metadata" k v =
        (withHash P k v metadata).map fun w => dictOf (recordDisplay env a agent action w) :=
    setHash_dictOf rfl
  constructor
  · intro h
    obtain ⟨b1, h1, h⟩ := bind_eq_ok.mp h
    obtain ⟨b2, h2, h⟩ := bind_eq_ok.mp h
    obtain ⟨_, hc1, h⟩ := bind_eq_ok.mp h
    obtain ⟨_, hc2, h⟩ := bind_eq_ok.mp h
    obtain ⟨b3, h3, h⟩ := bind_eq_ok.mp h
    cases (hname _ _).symm.trans h1
    cases (htarget _ _).symm.trans h2
    rw [hhash] at h3
    obtain ⟨m1, hm1, rfl⟩ := map_eq_ok.mp h3
    rw [hhash] at h
    obtain ⟨m2, hm2, hb⟩ := map_eq_ok.mp h
    exact ⟨⟨hc1, hc2⟩, m1, m2, hm1, hm2, hb⟩
  · rintro ⟨⟨hc1, hc2⟩, m1, m2, hm1, hm2, hb⟩
    refine bind_eq_ok.mpr ⟨_, hname _ _, bind_eq_ok.mpr ⟨_, htarget _ _, ?_⟩⟩
    refine bind_eq_ok.mpr ⟨(), hc1, bind_eq_ok.mpr ⟨(), hc2, bind_eq_ok.mpr ?_⟩⟩
    exact ⟨_, (hhash _ _ _ _ _).trans (map_eq_ok.mpr ⟨m1, hm1, rfl⟩),
      (hhash _ _ _ _ _).trans (map_eq_ok.mpr ⟨m2, hm2, hb⟩)⟩

/-- The key in a record can always be signed. -/
theorem signable_keyText : Signable (.str (keyText P privateKey)) :=
  signable_str.mpr (noSurrogates_ofChars _)

theorem agentDisplay_wf (a : Common) {name : PyValue} (hname : name.WF) :
    (agentDisplay privateKey a name).WF := by
  rw [agentDisplay, itemIf]
  cases truthy name with
  | true => exact dictOf_wf (by simp) (by simp [a.agentId.wf, hname])
  | false => exact dictOf_wf (by simp) (by simp [a.agentId.wf])

/-- The agent of a record passes if its identifier and its name do. -/
theorem agentDisplay_iff (a : Common) {name : PyValue} (hname : name.WF) :
    Record agentFields (agentDisplay privateKey a name) ∧
        Signable (agentDisplay privateKey a name) ↔
      IsNameValue a.agentId.val ∧ (truthy name = true → IsTextValue name) := by
  have hwf : (agentDisplay privateKey a name).WF := agentDisplay_wf a hname
  rw [agentDisplay] at hwf ⊢
  rw [record_dictOf, signable_dictOf hwf, itemIf, isNameValue_iff, isTextValue_iff]
  cases truthy name with
  | true =>
      simp [agentFields, holds_members, List.lookup_cons, base64url_keyText, signable_keyText]
      tauto
  | false =>
      simp [agentFields, holds_members, List.lookup_cons, base64url_keyText, signable_keyText]

/-- The principal of a record passes if its identifier and its type do. -/
theorem principalField_iff {a : Common} :
    Record principalFields a.principalField ∧ Signable a.principalField ↔
      IsNameValue a.principalId.val ∧ IsTextValue a.principalType.val := by
  rw [isNameValue_iff, isTextValue_iff, Common.principalField, record_dictOf,
    signable_dictOf a.principalField_wf]
  simp [principalFields, holds_members, List.lookup_cons]
  tauto

theorem actionDisplay_wf (a : RecordArgs) : (actionDisplay a).WF := by
  rw [actionDisplay, itemIf]
  cases truthy a.actionTarget.val with
  | true => exact dictOf_wf (by simp) (by simp [a.actionType.wf, a.actionTarget.wf])
  | false => exact dictOf_wf (by simp) (by simp [a.actionType.wf])

/-- The action of a record passes if its type does, and its target if there is one. -/
theorem actionDisplay_iff {a : RecordArgs} :
    Record actionFields (actionDisplay a) ∧ Signable (actionDisplay a) ↔
      IsNameValue a.actionType.val ∧
        (truthy a.actionTarget.val = true → IsTextValue a.actionTarget.val) := by
  have hwf := actionDisplay_wf a
  rw [actionDisplay] at hwf ⊢
  rw [record_dictOf, signable_dictOf hwf, itemIf, isNameValue_iff, isTextValue_iff]
  cases truthy a.actionTarget.val with
  | true =>
      simp [actionFields, holds_members, List.lookup_cons]
      tauto
  | false => simp [actionFields, holds_members, List.lookup_cons]

/-! ## Arguments with defaults -/

theorem orDefault_of_isNone {v d : PyValue} (h : isNone v = true) : orDefault v d = d := by
  cases v with
  | none => rfl
  | _ => cases h

theorem orDefault_of_not_isNone {v d : PyValue} (h : isNone v = false) : orDefault v d = v := by
  cases v with
  | none => cases h
  | _ => rfl

/-- An argument with a default that will do. -/
theorem forall_orDefault {p : PyValue → Prop} {v d : PyValue} (hd : p d) :
    p (orDefault v d) ↔ (isNone v = false → p v) := by
  cases h : isNone v with
  | true => simp [orDefault_of_isNone h, hd]
  | false => simp [orDefault_of_not_isNone h]

section

variable {env : Env}

/-- An identifier that is not given is the uuid. -/
theorem idField_iff {a : Common} (henv : env.Proper P) :
    NonEmpty (a.idField env) ∧ Signable (a.idField env) ↔
      (isNone a.correctionId.val = false → IsNameValue a.correctionId.val) := by
  rw [← isNameValue_iff]
  exact forall_orDefault (p := IsNameValue) ⟨env.uuid, rfl, henv.uuid_ne_nil, henv.uuid⟩

/-- A timestamp that is not given is the time of the call. -/
theorem timestampField_iff {a : Common} (henv : env.Proper P) :
    Timestamp P.isDateTime (a.timestampField env) ∧ Signable (a.timestampField env) ↔
      (isNone a.timestamp.val = false →
        ∃ s, a.timestamp.val = .str s ∧ noSurrogates s = true ∧ P.isDateTime s = true) := by
  have hkind (v : PyValue) : Timestamp P.isDateTime v ∧ Signable v ↔
      ∃ s, v = .str s ∧ noSurrogates s = true ∧ P.isDateTime s = true := by
    constructor
    · rintro ⟨⟨s, rfl, hs⟩, h⟩
      exact ⟨s, rfl, signable_str.mp h, hs⟩
    · rintro ⟨s, rfl, h, hs⟩
      exact ⟨⟨s, rfl, hs⟩, signable_str.mpr h⟩
  rw [hkind]
  exact forall_orDefault
    (p := fun v => ∃ s, v = .str s ∧ noSurrogates s = true ∧ P.isDateTime s = true)
    ⟨env.now, rfl, henv.now, henv.isDateTime⟩

/-- A key identifier that is not given is the key. -/
theorem kid_iff {a : Common} :
    IsNameValue (orDefault a.kid.val (.str (keyText P privateKey))) ↔
      (isNone a.kid.val = false → IsNameValue a.kid.val) :=
  forall_orDefault ⟨_, rfl, List.ne_nil_of_length_pos (keyText_ne_nil privateKey),
    noSurrogates_ofChars _⟩

/-- Metadata that are not given are an empty dict. -/
theorem metadataField_iff {a : Common} {ks : List String} :
    (∃ items, a.metadataField = .dict items ∧ SignableBut ks items) ↔
      (isNone a.metadata.val = false →
        ∃ items, a.metadata.val = .dict items ∧ SignableBut ks items) := by
  refine forall_orDefault (p := fun v => ∃ items, v = .dict items ∧ SignableBut ks items) ?_
  exact ⟨[], rfl, fun _ _ h => nomatch h⟩

theorem signable_object {v : PyValue} (hwf : v.WF) :
    IsObject v ∧ Signable v ↔ ∃ items, v = .dict items ∧ SignableBut [] items := by
  constructor
  · rintro ⟨⟨items, rfl⟩, h⟩
    exact ⟨items, rfl, (signable_dict_iff hwf).mp h⟩
  · rintro ⟨items, rfl, h⟩
    exact ⟨⟨items, rfl⟩, (signable_dict_iff hwf).mpr h⟩

/-- A constructor that returns has built a body. -/
theorem finish_exists {body : Except PyErr PyValue} {kid : PyValue} :
    (∃ r, (finish P body privateKey kid).result = .ok r) ↔
      ∃ b, body = .ok b ∧ ∃ r, (finish P (.ok b) privateKey kid).result = .ok r := by
  constructor
  · rintro ⟨r, hr⟩
    obtain ⟨b, _, rfl, _⟩ := finish_returned hr
    exact ⟨b, rfl, r, hr⟩
  · rintro ⟨b, rfl, h⟩
    exact h

/-- The whole record, one condition for each of its members. -/
theorem recordDisplay_iff {a : RecordArgs} {agent action metadata : PyValue}
    (hwf : (dictOf (recordDisplay env a agent action metadata)).WF) :
    Signable (dictOf (recordDisplay env a agent action metadata)) ∧
        IsRecord P (members (recordDisplay env a agent action metadata)) ↔
      (NonEmpty (a.idField env) ∧ Signable (a.idField env)) ∧
      (Record agentFields agent ∧ Signable agent) ∧
      (Record principalFields a.principalField ∧ Signable a.principalField) ∧
      (Record actionFields action ∧ Signable action) ∧
      (Timestamp P.isDateTime (a.timestampField env) ∧ Signable (a.timestampField env)) ∧
        IsObject metadata ∧ Signable metadata := by
  have hget (k : String) : getStr k (members (recordDisplay env a agent action metadata)) =
      (recordDisplay env a agent action metadata).lookup k := getStr_members _ _
  have hfamily : IsAction (members (recordDisplay env a agent action metadata)) :=
    ⟨.inl (hget _), ⟨_, hget _⟩, ⟨_, hget _⟩, ⟨_, hget _⟩, ⟨_, hget _⟩, not_present (hget _)⟩
  have hrec : IsRecord P (members (recordDisplay env a agent action metadata)) ↔
      ∀ f ∈ recordFields P.isDateTime, f.name ≠ "signature" →
        f.Holds (members (recordDisplay env a agent action metadata)) :=
    ⟨IsRecord.typed, fun h => ⟨h, .inl hfamily⟩⟩
  rw [hrec, signable_dictOf hwf]
  simp [recordFields, recordDisplay, holds_members, List.lookup_cons, signable_str, record_noop,
    Text, OneOf, signable_dictOf (single_wf (PyValue.wf_str _))]
  tauto

theorem withHash_wf {k : String} {v w w' : PyValue} (hw : w.WF)
    (h : withHash P k v w = .ok w') : w'.WF := by
  rw [withHash] at h
  split at h
  · cases h
    exact hw
  · obtain ⟨data, _, h⟩ := bind_eq_ok.mp h
    obtain ⟨items, rfl, rfl⟩ := PyValue.setItem_eq_ok.mp h
    exact PyValue.wf_setStr (hashObject_wf P data) hw

theorem recordDisplay_wf {a : RecordArgs} {agent action metadata : PyValue} (h1 : agent.WF)
    (h2 : action.WF) (h3 : metadata.WF) :
    (dictOf (recordDisplay env a agent action metadata)).WF := by
  refine dictOf_wf (by simp [recordDisplay]) ?_
  simp [recordDisplay, h1, h2, h3, a.idField_wf, a.principalField_wf, a.timestampField_wf, single_wf]

/-- The metadata of a record can be signed. -/
theorem metadata_iff {a : RecordArgs} :
    (∃ m1 m2, withHash P "inputHash" a.actionArgs.val a.metadataField = .ok m1 ∧
        withHash P "outputHash" a.actionResult.val m1 = .ok m2 ∧ IsObject m2 ∧ Signable m2) ↔
      (isNone a.actionArgs.val = false → ∃ data, contentBytes P a.actionArgs.val = .ok data) ∧
      (isNone a.actionResult.val = false → ∃ data, contentBytes P a.actionResult.val = .ok data) ∧
        (isNone a.metadata.val = false →
          ∃ items, a.metadata.val = .dict items ∧ SignableBut a.hashes items) := by
  rw [← metadataField_iff]
  constructor
  · rintro ⟨m1, m2, h1, h2, hm⟩
    have hwf := withHash_wf (withHash_wf a.metadataField_wf h1) h2
    obtain ⟨items, rfl, hs⟩ := (signable_object hwf).mp hm
    obtain ⟨hresult, items', rfl, hs⟩ := withHash_iff.mp ⟨items, h2, hs⟩
    obtain ⟨hargs, hmeta⟩ := withHash_iff.mp ⟨items', h1, hs⟩
    rw [List.append_nil] at hmeta
    exact ⟨hargs, hresult, hmeta⟩
  · rintro ⟨hargs, hresult, hmeta⟩
    rw [RecordArgs.hashes, ← List.append_nil (hashKey "outputHash" _)] at hmeta
    obtain ⟨items, h1, hs⟩ := withHash_iff.mpr ⟨hargs, hmeta⟩
    obtain ⟨items', h2, hs⟩ := withHash_iff.mpr ⟨hresult, items, rfl, hs⟩
    have hwf := withHash_wf (withHash_wf a.metadataField_wf h1) h2
    exact ⟨_, _, h1, h2, (signable_object hwf).mpr ⟨items', rfl, hs⟩⟩

/-- `record` returns exactly on its domain. -/
theorem record_ok_iff {a : RecordArgs} (henv : env.Proper P) :
    (∃ r, (record P privateKey env a).result = .ok r) ↔ RecordDomain P a := by
  have hagent : (agentDisplay privateKey a.toCommon a.agentName.val).WF :=
    agentDisplay_wf a.toCommon a.agentName.wf
  have hwf {metadata : PyValue} (h : metadata.WF) : (dictOf (recordDisplay env a
      (agentDisplay privateKey a.toCommon a.agentName.val) (actionDisplay a) metadata)).WF :=
    recordDisplay_wf hagent (actionDisplay_wf a) h
  have hsig {agent action metadata : PyValue} :
      getStr "signature" (members (recordDisplay env a agent action metadata)) = none :=
    (getStr_members _ _).trans rfl
  rw [record, finish_exists]
  constructor
  · rintro ⟨b, hb, h⟩
    obtain ⟨⟨hc1, hc2⟩, m1, m2, h1, h2, rfl⟩ := recordBody_eq_ok.mp hb
    have hm := withHash_wf (withHash_wf a.metadataField_wf h1) h2
    obtain ⟨hkid, hbody⟩ := (finish_ok_iff_of_kid (hwf hm) hsig).mp h
    obtain ⟨hid, ha, hp, hact, hts, hmeta⟩ := (recordDisplay_iff (hwf hm)).mp hbody
    obtain ⟨hargs, hresult, hmeta⟩ := metadata_iff.mp ⟨m1, m2, h1, h2, hmeta⟩
    obtain ⟨hagentId, hname⟩ := (agentDisplay_iff a.toCommon a.agentName.wf).mp ha
    obtain ⟨hprincipal, htype⟩ := principalField_iff.mp hp
    obtain ⟨haction, htarget⟩ := actionDisplay_iff.mp hact
    exact ⟨⟨hagentId, hprincipal, htype, kid_iff.mp hkid, hmeta, (idField_iff henv).mp hid,
      (timestampField_iff henv).mp hts⟩, hname, haction, htarget,
      (hashable_iff a.actionArgs.wf).mp ⟨hc1, hargs⟩,
      (hashable_iff a.actionResult.wf).mp ⟨hc2, hresult⟩⟩
  · intro h
    obtain ⟨hc1, hargs⟩ := (hashable_iff a.actionArgs.wf).mpr h.actionArgs
    obtain ⟨hc2, hresult⟩ := (hashable_iff a.actionResult.wf).mpr h.actionResult
    obtain ⟨m1, m2, h1, h2, hmeta⟩ := metadata_iff.mpr ⟨hargs, hresult, h.common.metadata⟩
    have hm := withHash_wf (withHash_wf a.metadataField_wf h1) h2
    refine ⟨_, recordBody_eq_ok.mpr ⟨⟨hc1, hc2⟩, m1, m2, h1, h2, rfl⟩, ?_⟩
    refine (finish_ok_iff_of_kid (hwf hm) hsig).mpr ⟨kid_iff.mpr h.common.kid, ?_⟩
    exact (recordDisplay_iff (hwf hm)).mpr ⟨(idField_iff henv).mpr h.common.correctionId,
      (agentDisplay_iff a.toCommon a.agentName.wf).mpr ⟨h.common.agentId, h.agentName⟩,
      principalField_iff.mpr ⟨h.common.principalId, h.common.principalType⟩,
      actionDisplay_iff.mpr ⟨h.actionType, h.actionTarget⟩,
      (timestampField_iff henv).mpr h.common.timestamp, hmeta⟩

end

/-! ## Declarations of uncertainty -/

/-- The body of such a declaration. -/
def unknownDisplay (env : Env) (a : UnknownArgs) (agent : PyValue) : List (String × PyValue) :=
  [("correctionId", a.idField env), ("agent", agent), ("principal", a.principalField),
    ("kind", .str (lit "unknown")), ("subject", a.subject.val),
    ("note", if truthy a.note.val then a.note.val else .str []),
    ("timestamp", a.timestampField env), ("metadata", a.metadataField)]

section

variable {env : Env} {a : UnknownArgs}

/-- The body of an uncertainty is a literal dict. -/
theorem unknownBody_eq : unknownBody P privateKey env a =
    .ok (dictOf (unknownDisplay env a (agentDisplay privateKey a.toCommon a.agentName.val))) := by
  have hname : setInIf (truthy a.agentName.val) (dictOf (unknownDisplay env a
      (a.agentField P privateKey))) "agent" "name" a.agentName.val = _ :=
    setInIf_dictOf rfl (by simp)
  exact hname

/-- A note that is empty or not given is the empty text. -/
theorem note_iff : (Text (if truthy a.note.val then a.note.val else .str []) ∧
      Signable (if truthy a.note.val then a.note.val else .str [])) ↔
    (truthy a.note.val = true → IsTextValue a.note.val) := by
  rw [← isTextValue_iff]
  cases truthy a.note.val with
  | true => simp
  | false => simp [IsTextValue]

theorem noteValue_wf : (if truthy a.note.val then a.note.val else .str []).WF := by
  split
  · exact a.note.wf
  · exact PyValue.wf_str []

theorem unknownDisplay_wf {agent : PyValue} (h : agent.WF) :
    (dictOf (unknownDisplay env a agent)).WF := by
  refine dictOf_wf (by simp [unknownDisplay]) ?_
  simp [unknownDisplay, h, a.idField_wf, a.principalField_wf, a.timestampField_wf,
    a.metadataField_wf, a.subject.wf, noteValue_wf]

/-- The whole uncertainty, one condition for each of its members. -/
theorem unknownDisplay_iff {agent : PyValue} (hwf : (dictOf (unknownDisplay env a agent)).WF) :
    Signable (dictOf (unknownDisplay env a agent)) ∧
        IsRecord P (members (unknownDisplay env a agent)) ↔
      (NonEmpty (a.idField env) ∧ Signable (a.idField env)) ∧
      (Record agentFields agent ∧ Signable agent) ∧
      (Record principalFields a.principalField ∧ Signable a.principalField) ∧
      (NonEmpty a.subject.val ∧ Signable a.subject.val) ∧
      (Text (if truthy a.note.val then a.note.val else .str []) ∧
        Signable (if truthy a.note.val then a.note.val else .str [])) ∧
      (Timestamp P.isDateTime (a.timestampField env) ∧ Signable (a.timestampField env)) ∧
        IsObject a.metadataField ∧ Signable a.metadataField := by
  have hget (k : String) : getStr k (members (unknownDisplay env a agent)) =
      (unknownDisplay env a agent).lookup k := getStr_members _ _
  have hfamily (h : NonEmpty a.subject.val) :
      IsUncertainty (members (unknownDisplay env a agent)) := by
    obtain ⟨s, hs, hlen⟩ := h
    exact ⟨hget _, ⟨s, (hget _).trans (congrArg some hs), List.ne_nil_of_length_pos hlen⟩,
      not_present (hget _), not_present (hget _), not_present (hget _)⟩
  have hrec : IsRecord P (members (unknownDisplay env a agent)) ↔
      ∀ f ∈ recordFields P.isDateTime, f.name ≠ "signature" →
        f.Holds (members (unknownDisplay env a agent)) := by
    refine ⟨IsRecord.typed, fun h => ⟨h, .inr (.inr (hfamily ?_))⟩⟩
    have hsubject := h ⟨"subject", false, NonEmpty⟩ (by simp [recordFields]) (by decide)
    exact holds_members.mp hsubject
  rw [hrec, signable_dictOf hwf]
  simp [recordFields, unknownDisplay, holds_members, List.lookup_cons, signable_str, OneOf]
  tauto

/-- `unknown` returns exactly on its domain. -/
theorem unknown_ok_iff (henv : env.Proper P) :
    (∃ r, (unknown P privateKey env a).result = .ok r) ↔ UnknownDomain P a := by
  have hwf : (dictOf (unknownDisplay env a (agentDisplay privateKey a.toCommon
      a.agentName.val))).WF := unknownDisplay_wf (agentDisplay_wf a.toCommon a.agentName.wf)
  rw [unknown, unknownBody_eq]
  refine (finish_ok_iff_of_kid hwf ((getStr_members _ _).trans rfl)).trans ?_
  refine (and_congr kid_iff (unknownDisplay_iff hwf)).trans ?_
  rw [idField_iff henv, agentDisplay_iff a.toCommon a.agentName.wf, principalField_iff, note_iff,
    timestampField_iff henv, signable_object a.metadataField_wf, metadataField_iff,
    ← isNameValue_iff]
  constructor
  · rintro ⟨hkid, hid, ⟨hagent, hname⟩, ⟨hprincipal, htype⟩, hsubject, hnote, hts, hmeta⟩
    exact ⟨⟨hagent, hprincipal, htype, hkid, hmeta, hid, hts⟩, hname, hsubject, hnote⟩
  · intro h
    exact ⟨h.common.kid, h.common.correctionId, ⟨h.common.agentId, h.agentName⟩,
      ⟨h.common.principalId, h.common.principalType⟩, h.subject, h.note, h.common.timestamp,
      h.common.metadata⟩

end

/-! ## Corrections -/

/-- The hash of a value, if there is one, as items. -/
def hashItems (P : Platform) (k : String) (v : PyValue) :
    Except PyErr (List (String × PyValue)) :=
  if isNone v then .ok [] else do
    let data ← contentBytes P v
    return [(k, hashObject P data)]

/-- A hash under a new key goes to the end of the dict. -/
theorem withHash_dictOf {k : String} {v : PyValue} {kvs : List (String × PyValue)}
    (hnew : k ∉ kvs.map Prod.fst) :
    withHash P k v (dictOf kvs) = (hashItems P k v).map fun items => dictOf (kvs ++ items) := by
  rw [withHash, hashItems]
  split
  · rw [Except.map, List.append_nil]
  · cases contentBytes P v with
    | error e => rfl
    | ok data =>
        show (dictOf kvs).setItem k (hashObject P data) = _
        rw [setItem_dictOf, put_append hnew]
        rfl

/-- The `fix` of a correction, with the hash of its content. -/
def fixDisplay (a : RetractArgs) (content : List (String × PyValue)) : PyValue :=
  dictOf ([("type", a.fixType.val)] ++ itemIf (truthy a.fixNote.val) "note" a.fixNote.val ++
    content ++ itemIf (!isNone a.sourceType.val) "source"
      (dictOf [("type", a.sourceType.val), ("reference", a.sourceReference.val)]))

/-- The body of a correction. -/
def retractDisplay (env : Env) (a : RetractArgs) (agent supersedes actionType fix : PyValue) :
    List (String × PyValue) :=
  [("correctionId", a.idField env), ("agent", agent), ("principal", a.principalField),
    ("supersedes", supersedes), ("action", dictOf [("type", actionType)]),
    ("reason", a.reason.val), ("trigger", a.trigger.val), ("fix", fix),
    ("timestamp", a.timestampField env), ("metadata", a.metadataField)]

section

variable {env : Env} {a : RetractArgs}

theorem hashItems_keys {k : String} {v : PyValue} {items : List (String × PyValue)}
    (h : hashItems P k v = .ok items) : items = [] ∨ ∃ data, items = [(k, hashObject P data)] := by
  rw [hashItems] at h
  split at h
  · cases h
    exact .inl rfl
  · obtain ⟨data, _, h⟩ := bind_eq_ok.mp h
    cases h
    exact .inr ⟨data, rfl⟩

/-- There is a hash, or no content to hash, unless the content cannot be hashed. -/
theorem exists_hashItems {k : String} {v : PyValue} :
    (∃ items, hashItems P k v = .ok items) ↔
      (isNone v = false → ∃ data, contentBytes P v = .ok data) := by
  rw [hashItems]
  cases isNone v with
  | true => simp
  | false =>
      constructor
      · rintro ⟨items, h⟩ _
        obtain ⟨data, hdata, _⟩ := bind_eq_ok.mp h
        exact ⟨data, hdata⟩
      · intro h
        obtain ⟨data, hdata⟩ := h rfl
        exact ⟨_, bind_eq_ok.mpr ⟨data, hdata, rfl⟩⟩

/-- The steps that fill in the `fix`. -/
theorem fix_steps {agent supersedes actionType b : PyValue} :
    (∃ b1, setInIf (truthy a.fixNote.val) (dictOf (retractDisplay env a agent supersedes actionType
        (dictOf [("type", a.fixType.val)]))) "fix" "note" a.fixNote.val = .ok b1 ∧
      ∃ b2, setHash P b1 "fix" "contentHash" a.correctedContent.val = .ok b2 ∧
        setInIf (!isNone a.sourceType.val) b2 "fix" "source"
          (dictOf [("type", a.sourceType.val), ("reference", a.sourceReference.val)]) = .ok b) ↔
      ∃ content, hashItems P "contentHash" a.correctedContent.val = .ok content ∧
        dictOf (retractDisplay env a agent supersedes actionType (fixDisplay a content)) = b := by
  have hnote : setInIf (truthy a.fixNote.val) (dictOf (retractDisplay env a agent supersedes
      actionType (dictOf [("type", a.fixType.val)]))) "fix" "note" a.fixNote.val =
        .ok (dictOf (retractDisplay env a agent supersedes actionType (dictOf
          ([("type", a.fixType.val)] ++ itemIf (truthy a.fixNote.val) "note" a.fixNote.val)))) :=
    (setInIf_dictOf rfl (by simp)).trans rfl
  have hkeys : "contentHash" ∉ ([("type", a.fixType.val)] ++
      itemIf (truthy a.fixNote.val) "note" a.fixNote.val).map Prod.fst := by
    rw [itemIf]
    split <;> simp
  have hhash : setHash P (dictOf (retractDisplay env a agent supersedes actionType (dictOf
      ([("type", a.fixType.val)] ++ itemIf (truthy a.fixNote.val) "note" a.fixNote.val)))) "fix"
        "contentHash" a.correctedContent.val = _ := setHash_dictOf rfl
  rw [withHash_dictOf hkeys] at hhash
  have hsource {content : List (String × PyValue)}
      (h : hashItems P "contentHash" a.correctedContent.val = .ok content) :
      setInIf (!isNone a.sourceType.val) (dictOf (retractDisplay env a agent supersedes actionType
        (dictOf ([("type", a.fixType.val)] ++ itemIf (truthy a.fixNote.val) "note" a.fixNote.val ++
          content)))) "fix" "source" (dictOf [("type", a.sourceType.val),
            ("reference", a.sourceReference.val)]) =
        .ok (dictOf (retractDisplay env a agent supersedes actionType (fixDisplay a content))) := by
    refine (setInIf_dictOf rfl ?_).trans rfl
    rw [itemIf]
    rcases hashItems_keys h with rfl | ⟨data, rfl⟩
    · split <;> simp
    · split <;> simp
  constructor
  · rintro ⟨b1, h1, b2, h2, h3⟩
    cases hnote.symm.trans h1
    rw [hhash] at h2
    obtain ⟨_, hmap, rfl⟩ := map_eq_ok.mp h2
    obtain ⟨content, hc, rfl⟩ := map_eq_ok.mp hmap
    exact ⟨content, hc, Except.ok.inj ((hsource hc).symm.trans h3)⟩
  · rintro ⟨content, hc, rfl⟩
    refine ⟨_, hnote, _, ?_, hsource hc⟩
    rw [hhash, hc]
    rfl

/-- The body of a correction is its literal dict, once the checks are passed. -/
theorem retractBody_eq_ok {b : PyValue} :
    retractBody P privateKey env a = .ok b ↔ checkRetract P a = .ok () ∧
      checkDict a.correctedContent.val = .ok () ∧ ∃ supersedes actionType content,
        supersedesField P a.priorRecord.val = .ok supersedes ∧
        actionTypeOf a.priorRecord.val = .ok actionType ∧
        hashItems P "contentHash" a.correctedContent.val = .ok content ∧
          dictOf (retractDisplay env a (agentDisplay privateKey a.toCommon .none) supersedes
            actionType (fixDisplay a content)) = b := by
  constructor
  · intro h
    obtain ⟨_, hcheck, h⟩ := bind_eq_ok.mp h
    obtain ⟨supersedes, hsup, h⟩ := bind_eq_ok.mp h
    obtain ⟨action, haction, h⟩ := bind_eq_ok.mp h
    obtain ⟨actionType, htype, h⟩ := bind_eq_ok.mp h
    obtain ⟨b1, h1, h⟩ := bind_eq_ok.mp h
    obtain ⟨_, hc, h⟩ := bind_eq_ok.mp h
    obtain ⟨b2, h2, h⟩ := bind_eq_ok.mp h
    obtain ⟨content, hcontent, hb⟩ := fix_steps.mp ⟨b1, h1, b2, h2, h⟩
    exact ⟨hcheck, hc, supersedes, actionType, content, hsup,
      bind_eq_ok.mpr ⟨action, haction, htype⟩, hcontent, hb⟩
  · rintro ⟨hcheck, hc, supersedes, actionType, content, hsup, htype, hcontent, hb⟩
    obtain ⟨action, haction, htype⟩ := bind_eq_ok.mp htype
    obtain ⟨b1, h1, b2, h2, h⟩ := fix_steps.mpr ⟨content, hcontent, hb⟩
    refine bind_eq_ok.mpr ⟨(), hcheck, bind_eq_ok.mpr ⟨_, hsup, bind_eq_ok.mpr ⟨_, haction, ?_⟩⟩⟩
    refine bind_eq_ok.mpr ⟨_, htype, bind_eq_ok.mpr ⟨b1, h1, bind_eq_ok.mpr ⟨(), hc, ?_⟩⟩⟩
    exact bind_eq_ok.mpr ⟨b2, h2, h⟩

/-! ### The parts of a correction -/

/-- The constants are compared as strings are. -/
theorem oneOf_iff {texts : List String} {v : PyValue} : oneOf texts v = true ↔ OneOf texts v := by
  rw [oneOf, List.any_eq_true]
  simp only [PyValue.pyEq_str_iff]
  rfl

theorem signable_of_oneOf {texts : List String} {v : PyValue} (h : OneOf texts v) : Signable v := by
  obtain ⟨t, _, rfl⟩ := h
  exact signable_str.mpr (noSurrogates_lit t)

theorem not_isNone_of_oneOf {texts : List String} {v : PyValue} (h : OneOf texts v) :
    isNone v = false := by
  obtain ⟨t, _, rfl⟩ := h
  rfl

/-- What `retract` checks first: the enumerations, and that a source has both parts. -/
theorem checkRetract_eq_ok : checkRetract P a = .ok () ↔
    OneOf validTriggers a.trigger.val ∧ OneOf validFixTypes a.fixType.val ∧
      (isNone a.sourceType.val = true ∧ isNone a.sourceReference.val = true ∨
        OneOf validSourceTypes a.sourceType.val ∧ isNone a.sourceReference.val = false) := by
  have hraise (text : String) (v : PyValue) : (raiseGot P text v : Except PyErr Unit) ≠ .ok () := by
    rw [raiseGot]
    split <;> exact (nomatch ·)
  rw [checkRetract, ← oneOf_iff, ← oneOf_iff, ← oneOf_iff]
  cases ht : oneOf validTriggers a.trigger.val with
  | false => simp [hraise]
  | true =>
      cases hf : oneOf validFixTypes a.fixType.val with
      | false => simp [hraise]
      | true =>
          cases hn : isNone a.sourceType.val with
          | true =>
              have hs : oneOf validSourceTypes a.sourceType.val = false := by
                rw [Bool.eq_false_iff]
                intro h
                rw [not_isNone_of_oneOf (oneOf_iff.mp h)] at hn
                cases hn
              cases isNone a.sourceReference.val <;> simp [hs, raise]
          | false =>
              cases oneOf validSourceTypes a.sourceType.val <;>
                cases isNone a.sourceReference.val <;> simp [hraise, raise]

/-- The link to the prior record is made of its identifier and of its canonical bytes. -/
theorem supersedesField_eq_ok {prior supersedes : PyValue} :
    supersedesField P prior = .ok supersedes ↔ ∃ data id, canonicalJson prior = .ok data ∧
      receiptIdOf prior = .ok id ∧
        dictOf [("receiptId", id), ("digest", hashObject P data)] = supersedes := by
  constructor
  · intro h
    obtain ⟨data, hdata, h⟩ := bind_eq_ok.mp h
    obtain ⟨correctionId, hc, h⟩ := bind_eq_ok.mp h
    obtain ⟨id, hid, h⟩ := bind_eq_ok.mp h
    cases h
    exact ⟨data, id, hdata, bind_eq_ok.mpr ⟨correctionId, hc, hid⟩, rfl⟩
  · rintro ⟨data, id, hdata, hid, rfl⟩
    obtain ⟨correctionId, hc, hid⟩ := bind_eq_ok.mp hid
    exact bind_eq_ok.mpr ⟨data, hdata, bind_eq_ok.mpr ⟨correctionId, hc,
      bind_eq_ok.mpr ⟨id, hid, rfl⟩⟩⟩

theorem receiptIdOf_wf {prior id : PyValue} (hp : prior.WF) (h : receiptIdOf prior = .ok id) :
    id.WF := by
  obtain ⟨correctionId, hc, h⟩ := bind_eq_ok.mp h
  rw [orElse] at h
  split at h
  · cases h
    exact getMethod_wf hp PyValue.wf_none hc
  · exact getMethod_wf hp PyValue.wf_none h

theorem actionTypeOf_wf {prior type : PyValue} (hp : prior.WF) (h : actionTypeOf prior = .ok type) :
    type.WF := by
  obtain ⟨action, haction, h⟩ := bind_eq_ok.mp h
  have hempty : (dictOf []).WF := rfl
  exact getMethod_wf (getMethod_wf hp hempty haction) (PyValue.wf_str _) h

section

variable (hsha : ∀ data, (P.sha256 data).length = 32)

include hsha

/-- The digest of any bytes has the form that the schema asks for. -/
theorem record_digest (data : Bytes) : Record digestFields (hashObject P data) := by
  refine record_dictOf.mpr ?_
  simp [digestFields, holds_members, List.lookup_cons, OneOf, base64url_b64url, hsha]

theorem record_contentHash (data : Bytes) : Record contentHashFields (hashObject P data) := by
  have hlen : 16 ≤ (b64url (P.sha256 data)).length := by
    rw [length_b64url, hsha]
    decide
  refine record_dictOf.mpr ?_
  simp [contentHashFields, holds_members, List.lookup_cons, Text, TextOf, hlen, length_ofChars]

/-- The link passes if the prior identifier is a name. -/
theorem supersedes_iff {id : PyValue} (hid : id.WF) (data : Bytes) :
    Record supersedesFields (dictOf [("receiptId", id), ("digest", hashObject P data)]) ∧
        Signable (dictOf [("receiptId", id), ("digest", hashObject P data)]) ↔
      IsNameValue id := by
  have hwf : (dictOf [("receiptId", id), ("digest", hashObject P data)]).WF :=
    dictOf_wf (by simp) (by simp [hid, hashObject_wf])
  rw [isNameValue_iff, record_dictOf, signable_dictOf hwf]
  simp [supersedesFields, holds_members, List.lookup_cons, record_digest hsha, signable_hashObject]

end

/-- A source passes if its type is listed and its reference is a name. -/
theorem source_iff :
    Record sourceFields (dictOf [("type", a.sourceType.val), ("reference", a.sourceReference.val)]) ∧
        Signable (dictOf [("type", a.sourceType.val), ("reference", a.sourceReference.val)]) ↔
      OneOf validSourceTypes a.sourceType.val ∧ IsNameValue a.sourceReference.val := by
  have hwf : (dictOf [("type", a.sourceType.val), ("reference", a.sourceReference.val)]).WF :=
    dictOf_wf (by simp) (by simp [a.sourceType.wf, a.sourceReference.wf])
  have hsign : OneOf validSourceTypes a.sourceType.val → Signable a.sourceType.val :=
    signable_of_oneOf
  rw [isNameValue_iff, record_dictOf, signable_dictOf hwf]
  simp only [sourceFields, validSourceTypes, List.forall_mem_cons, holds_members] at hsign ⊢
  simp [List.lookup_cons]
  tauto

theorem fixDisplay_wf {content : List (String × PyValue)}
    (hc : hashItems P "contentHash" a.correctedContent.val = .ok content) :
    (fixDisplay a content).WF := by
  have hsource : (dictOf [("type", a.sourceType.val), ("reference", a.sourceReference.val)]).WF :=
    dictOf_wf (by simp) (by simp [a.sourceType.wf, a.sourceReference.wf])
  rw [fixDisplay, itemIf, itemIf]
  rcases hashItems_keys hc with rfl | ⟨data, rfl⟩
  · cases truthy a.fixNote.val <;> cases isNone a.sourceType.val <;>
      exact dictOf_wf (by simp) (by simp [a.fixType.wf, a.fixNote.wf, hsource])
  · cases truthy a.fixNote.val <;> cases isNone a.sourceType.val <;>
      exact dictOf_wf (by simp) (by simp [a.fixType.wf, a.fixNote.wf, hsource, hashObject_wf])

/-- What is asked for of the `fix`. -/
theorem fixDisplay_iff (hsha : ∀ data, (P.sha256 data).length = 32)
    {content : List (String × PyValue)}
    (hc : hashItems P "contentHash" a.correctedContent.val = .ok content) :
    Record fixFields (fixDisplay a content) ∧ Signable (fixDisplay a content) ↔
      OneOf validFixTypes a.fixType.val ∧
      (truthy a.fixNote.val = true → IsTextValue a.fixNote.val) ∧
      (isNone a.sourceType.val = false →
        OneOf validSourceTypes a.sourceType.val ∧ IsNameValue a.sourceReference.val) := by
  have hwf := fixDisplay_wf hc
  have hsign : OneOf validFixTypes a.fixType.val → Signable a.fixType.val := signable_of_oneOf
  have hhash : ∀ data, Record contentHashFields (hashObject P data) ∧ Signable (hashObject P data) :=
    fun data => ⟨record_contentHash hsha data, signable_hashObject data⟩
  rw [fixDisplay] at hwf ⊢
  rw [isTextValue_iff, ← source_iff, record_dictOf, signable_dictOf hwf]
  simp only [fixFields, validFixTypes, List.forall_mem_cons, holds_members, itemIf] at hsign ⊢
  rcases hashItems_keys hc with rfl | ⟨data, rfl⟩
  · cases truthy a.fixNote.val <;> cases isNone a.sourceType.val <;>
      simp [List.lookup_cons] <;> tauto
  · cases truthy a.fixNote.val <;> cases isNone a.sourceType.val <;>
      simp [List.lookup_cons, hhash] <;> tauto

/-! ### The correction -/

theorem retractDisplay_wf {agent supersedes actionType fix : PyValue} (h1 : agent.WF)
    (h2 : supersedes.WF) (h3 : actionType.WF) (h4 : fix.WF) :
    (dictOf (retractDisplay env a agent supersedes actionType fix)).WF := by
  refine dictOf_wf (by simp [retractDisplay]) ?_
  simp [retractDisplay, h1, h2, h4, a.idField_wf, a.principalField_wf, a.timestampField_wf,
    a.metadataField_wf, a.reason.wf, a.trigger.wf, single_wf h3]

/-- The whole correction, one condition for each of its members. -/
theorem retractDisplay_iff {agent supersedes actionType fix : PyValue} (htype : actionType.WF)
    (hwf : (dictOf (retractDisplay env a agent supersedes actionType fix)).WF) :
    Signable (dictOf (retractDisplay env a agent supersedes actionType fix)) ∧
        IsRecord P (members (retractDisplay env a agent supersedes actionType fix)) ↔
      (NonEmpty (a.idField env) ∧ Signable (a.idField env)) ∧
      (Record agentFields agent ∧ Signable agent) ∧
      (Record principalFields a.principalField ∧ Signable a.principalField) ∧
      (Record supersedesFields supersedes ∧ Signable supersedes) ∧
      (NonEmpty actionType ∧ Signable actionType) ∧
      (NonEmpty a.reason.val ∧ Signable a.reason.val) ∧
      OneOf validTriggers a.trigger.val ∧ (Record fixFields fix ∧ Signable fix) ∧
      (Timestamp P.isDateTime (a.timestampField env) ∧ Signable (a.timestampField env)) ∧
        IsObject a.metadataField ∧ Signable a.metadataField := by
  have hget (k : String) :
      getStr k (members (retractDisplay env a agent supersedes actionType fix)) =
        (retractDisplay env a agent supersedes actionType fix).lookup k := getStr_members _ _
  have hrec : IsRecord P (members (retractDisplay env a agent supersedes actionType fix)) ↔
      (∀ f ∈ recordFields P.isDateTime, f.name ≠ "signature" →
        f.Holds (members (retractDisplay env a agent supersedes actionType fix))) ∧
          NonEmpty a.reason.val := by
    constructor
    · intro h
      refine ⟨h.typed, ?_⟩
      rcases h.family with ha | hc | hu
      · exact absurd ⟨_, hget _⟩ ha.supersedes
      · obtain ⟨s, hs, hne⟩ := hc.reason
        rw [hget] at hs
        exact Option.some.inj hs ▸ nonEmpty_str.mpr hne
      · exact absurd ⟨_, hget _⟩ hu.supersedes
    · rintro ⟨htyped, s, hs, hlen⟩
      have hsup := htyped ⟨"supersedes", false, Record supersedesFields⟩ (by simp [recordFields])
        (by decide)
      exact ⟨htyped, .inr (.inl ⟨.inl (hget _), ⟨_, hget _⟩,
        ⟨s, (hget _).trans (congrArg some hs), List.ne_nil_of_length_pos hlen⟩, ⟨_, hget _⟩,
        ⟨_, hget _⟩, ⟨_, hget _, holds_members.mp hsup⟩⟩)⟩
  have haction : Record actionFields (dictOf [("type", actionType)]) ↔ NonEmpty actionType := by
    rw [record_dictOf]
    simp [actionFields, holds_members, List.lookup_cons]
  have htext : NonEmpty a.reason.val → Text a.reason.val := fun h => ⟨_, h.choose_spec.1⟩
  have hsign : OneOf validTriggers a.trigger.val → Signable a.trigger.val := signable_of_oneOf
  rw [hrec, signable_dictOf hwf]
  simp only [recordFields, validTriggers, List.forall_mem_cons, holds_members] at hsign ⊢
  simp [retractDisplay, List.lookup_cons, haction, signable_dictOf (single_wf htype)]
  tauto

/-- `retract` returns exactly on its domain. -/
theorem retract_ok_iff (henv : env.Proper P) (hsha : ∀ data, (P.sha256 data).length = 32) :
    (∃ r, (retract P privateKey env a).result = .ok r) ↔ RetractDomain P a := by
  have hagent : (agentDisplay privateKey a.toCommon .none).WF :=
    agentDisplay_wf a.toCommon PyValue.wf_none
  have hsig {agent supersedes actionType fix : PyValue} : getStr "signature"
      (members (retractDisplay env a agent supersedes actionType fix)) = none :=
    (getStr_members _ _).trans rfl
  have hcontentWF := hashable_iff (P := P) a.correctedContent.wf
  rw [retract, finish_exists]
  constructor
  · rintro ⟨b, hb, h⟩
    obtain ⟨hcheck, hdict, sup, type, content, hsup, htype, hcontent, rfl⟩ :=
      retractBody_eq_ok.mp hb
    obtain ⟨data, id, hdata, hid, rfl⟩ := supersedesField_eq_ok.mp hsup
    have hidWF := receiptIdOf_wf a.priorRecord.wf hid
    have htypeWF := actionTypeOf_wf a.priorRecord.wf htype
    have hwf : (dictOf (retractDisplay env a (agentDisplay privateKey a.toCommon .none) _ type
        (fixDisplay a content))).WF :=
      retractDisplay_wf hagent (supersedesField_wf a.priorRecord.wf hsup) htypeWF
        (fixDisplay_wf hcontent)
    obtain ⟨hkid, hbody⟩ := (finish_ok_iff_of_kid hwf hsig).mp h
    obtain ⟨hcid, ha, hp, hsup', hact, hreason, htrigger, hfix, hts, hmeta⟩ :=
      (retractDisplay_iff htypeWF hwf).mp hbody
    obtain ⟨_, hfixType, hsource⟩ := checkRetract_eq_ok.mp hcheck
    obtain ⟨_, hnote, hsource'⟩ := (fixDisplay_iff hsha hcontent).mp hfix
    obtain ⟨hagentId, _⟩ := (agentDisplay_iff a.toCommon PyValue.wf_none).mp ha
    obtain ⟨hprincipal, hptype⟩ := principalField_iff.mp hp
    refine ⟨⟨hagentId, hprincipal, hptype, kid_iff.mp hkid, ?_, (idField_iff henv).mp hcid,
      (timestampField_iff henv).mp hts⟩, ?_, isNameValue_iff.mpr hreason, htrigger, hfixType, hnote,
      hcontentWF.mp ⟨hdict, exists_hashItems.mp ⟨content, hcontent⟩⟩, ?_⟩
    · exact metadataField_iff.mp ((signable_object a.metadataField_wf).mp hmeta)
    · exact ⟨(jsonAble_iff_canonicalJson a.priorRecord.wf).mpr ⟨data, hdata⟩,
        ⟨id, hid, (supersedes_iff hsha hidWF data).mp hsup'⟩, ⟨type, htype, isNameValue_iff.mpr hact⟩⟩
    · exact hsource.imp_right fun hs => hsource' (not_isNone_of_oneOf hs.1)
  · intro h
    obtain ⟨hdict, hcontent⟩ := hcontentWF.mpr h.correctedContent
    obtain ⟨content, hcontent⟩ := exists_hashItems.mpr hcontent
    obtain ⟨data, hdata⟩ := (jsonAble_iff_canonicalJson a.priorRecord.wf).mp h.prior.json
    obtain ⟨id, hid, hidName⟩ := h.prior.receiptId
    obtain ⟨type, htype, htypeName⟩ := h.prior.actionType
    have hsup : supersedesField P a.priorRecord.val = .ok _ :=
      supersedesField_eq_ok.mpr ⟨data, id, hdata, hid, rfl⟩
    have hidWF := receiptIdOf_wf a.priorRecord.wf hid
    have htypeWF := actionTypeOf_wf a.priorRecord.wf htype
    have hwf : (dictOf (retractDisplay env a (agentDisplay privateKey a.toCommon .none) _ type
        (fixDisplay a content))).WF :=
      retractDisplay_wf hagent (supersedesField_wf a.priorRecord.wf hsup) htypeWF
        (fixDisplay_wf hcontent)
    have hcheck : checkRetract P a = .ok () := by
      refine checkRetract_eq_ok.mpr ⟨h.trigger, h.fixType, h.source.imp_right fun hsource => ?_⟩
      obtain ⟨hst, s, hs, _⟩ := hsource
      exact ⟨hst, by rw [hs]; rfl⟩
    have hsource (hst : isNone a.sourceType.val = false) :
        OneOf validSourceTypes a.sourceType.val ∧ IsNameValue a.sourceReference.val := by
      rcases h.source with ⟨hnone, _⟩ | hs
      · cases hnone.symm.trans hst
      · exact hs
    refine ⟨_, retractBody_eq_ok.mpr ⟨hcheck, hdict, _, type, content, hsup, htype, hcontent, rfl⟩, ?_⟩
    have hname : truthy .none = true → IsTextValue .none := fun ht => by cases ht
    refine (finish_ok_iff_of_kid hwf hsig).mpr ⟨kid_iff.mpr h.common.kid, ?_⟩
    exact (retractDisplay_iff htypeWF hwf).mpr ⟨(idField_iff henv).mpr h.common.correctionId,
      (agentDisplay_iff a.toCommon PyValue.wf_none).mpr ⟨h.common.agentId, hname⟩,
      principalField_iff.mpr ⟨h.common.principalId, h.common.principalType⟩,
      (supersedes_iff hsha hidWF data).mpr hidName, isNameValue_iff.mp htypeName,
      isNameValue_iff.mp h.reason, h.trigger,
      (fixDisplay_iff hsha hcontent).mpr ⟨h.fixType, h.fixNote, hsource⟩,
      (timestampField_iff henv).mpr h.common.timestamp,
      (signable_object a.metadataField_wf).mpr (metadataField_iff.mpr h.common.metadata)⟩

end

/-- A record that was returned can be corrected. -/
theorem retractable_of_record {env : Env} {a : RecordArgs} {r : PyValue}
    (h : (record P privateKey env a).result = .ok r) : Retractable r := by
  obtain ⟨hwf, id, type, data, hp⟩ := prior_of_record h
  obtain ⟨action, haction, htype⟩ := hp.action_eq
  have hid : receiptIdOf r = .ok (.str id) := by
    refine bind_eq_ok.mpr ⟨_, hp.id_eq, ?_⟩
    rw [orElse, if_pos (truthy_str hp.id_name.1)]
  exact ⟨(jsonAble_iff_canonicalJson hwf).mpr ⟨data, hp.data_eq⟩, ⟨_, hid, id, rfl, hp.id_name⟩,
    ⟨_, bind_eq_ok.mpr ⟨action, haction, htype⟩, type, rfl, hp.type_name⟩⟩

/-! ## All constructors -/

/-- A call returns exactly if its arguments are in the domain of its constructor. -/
theorem constructors_return (c : Call) (henv : c.env.Proper P)
    (hsha : ∀ data, (P.sha256 data).length = 32) :
    (∃ r, (c.outcome privateKey).result = .ok r) ↔ c.Domain P := by
  cases c with
  | record env a => exact record_ok_iff henv
  | retract env a => exact retract_ok_iff henv hsha
  | unknown env a => exact unknown_ok_iff henv

namespace Vector

/-- The platform with digests of the right length for all data. -/
def hashing : Platform :=
  { platform with
    sha256 := fun data => (sha256 data ++ List.replicate 32 0).take 32 }

theorem hashing_sha256 (data : Bytes) : (hashing.sha256 data).length = 32 := by
  show ((sha256 data ++ List.replicate 32 0).take 32).length = 32
  simp

/-- A uuid and a time, as the constructors take them. -/
def someEnv : Env :=
  ⟨lit "00000000-0000-4000-8000-000000000003", lit "2026-08-25T00:00:00+00:00"⟩

theorem someEnv_proper : someEnv.Proper hashing := by
  constructor <;> decide +kernel

/-- The correction of the vectors. -/
def correctionCall : Call := .retract someEnv (retractArgs ⟨action, action_wf⟩)

/-- The first vector can be corrected. -/
theorem retractable_action : Retractable action where
  json := (jsonAble_iff_canonicalJson action_wf).mpr
    ⟨_, canonicalJson_records ⟨action, action_wf⟩ List.mem_cons_self⟩
  receiptId := ⟨_, rfl, _, rfl, by decide, noSurrogates_lit _⟩
  actionType := ⟨_, rfl, _, rfl, by decide, noSurrogates_lit _⟩

/-- The correction in the vectors is in the domain. -/
theorem correction_domain : correctionCall.Domain hashing where
  common := {
    agentId := ⟨_, rfl, by decide, noSurrogates_lit _⟩
    principalId := ⟨_, rfl, by decide, noSurrogates_lit _⟩
    principalType := ⟨_, rfl, noSurrogates_lit _⟩
    kid := (nomatch ·)
    metadata := (nomatch ·)
    correctionId := fun _ => ⟨_, rfl, by decide, noSurrogates_lit _⟩
    timestamp := fun _ => ⟨_, rfl, noSurrogates_lit _, by decide +kernel⟩ }
  prior := retractable_action
  reason := ⟨_, rfl, by decide, noSurrogates_lit _⟩
  trigger := ⟨"check_failed", by decide, rfl⟩
  fixType := ⟨"replace", by decide, rfl⟩
  fixNote := fun _ => ⟨_, rfl, noSurrogates_lit _⟩
  correctedContent := fun _ => by
    have hwf : (dictOf [("yield_forecast", text "1.42")]).WF := single_wf (PyValue.wf_str _)
    exact (signable_dictOf hwf).mpr (List.forall_mem_singleton.mpr
      (signable_str.mpr (noSurrogates_lit _)))
  source := .inl ⟨rfl, rfl⟩

end Vector

/-- The call that made the correction returns, whatever the signature is. -/
theorem constructors_return_vectors :
    ∃ r, (Vector.correctionCall.outcome (P := Vector.hashing) ()).result = .ok r :=
  (constructors_return Vector.correctionCall Vector.someEnv_proper Vector.hashing_sha256).mpr
    Vector.correction_domain

end Corrlog
