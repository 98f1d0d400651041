import Corrlog.Core.Attribution
import Corrlog.Core.Exact

/-!
# When a constructor returns

A constructor raises where its body cannot be signed or is not a record.  What can
be signed is `Signable`, and a body is a record if it has the fields and the kind
that the schema asks for (`finish_ok_iff`).  For a record of a tool call
(`toolRecord`) and a correction of it (`toolRetract`) this comes down to their
arguments.
-/

namespace Corrlog

open Python
open JsonSchema

/-! ## What can be signed -/

/-- A value all of whose numbers are exact passes the check. -/
theorem check_of_allExact {v : PyValue} (hwf : v.WF) (h : v.AllExact) :
    checkApplicationNumbers v = .ok () := by
  induction v with
  | int n =>
      have hn : (Binary64.ofInt n).value = some (n : ℚ) := h [] n rfl
      have hfin : (Binary64.ofInt n).isFinite = true := by
        cases hx : Binary64.ofInt n with
        | finite neg m => rfl
        | inf neg => rw [hx] at hn; cases hn
        | nan => rw [hx] at hn; cases hn
      rw [checkApplicationNumbers, if_pos hfin, if_pos (intEqFloat_iff.mpr hn)]
  | list xs ih =>
      refine (check_seq rfl).mpr fun x hx => ih x hx ((PyValue.wf_list xs).mp hwf x hx) ?_
      obtain ⟨i, hi⟩ := List.mem_iff_getElem?.mp hx
      exact h.child (s := .index i) hi
  | tuple xs ih =>
      refine (check_seq rfl).mpr fun x hx => ih x hx ((PyValue.wf_tuple xs).mp hwf x hx) ?_
      obtain ⟨i, hi⟩ := List.mem_iff_getElem?.mp hx
      exact h.child (s := .index i) hi
  | dict items ih =>
      obtain ⟨hnd, hitems⟩ := (PyValue.wf_dict items).mp hwf
      refine check_dict.mpr fun kv hkv => ih kv hkv (hitems kv hkv) ?_
      exact h.child (s := .key kv.1) (getKey_of_mem hnd hkv)
  | _ => rfl

/-- The integers are exact, the floats finite, and all strings have UTF-8 texts. -/
structure Signable (v : PyValue) : Prop where
  exact : v.AllExact
  json : v.JsonAble

/-- What can be signed has passed the check and has canonical bytes. -/
theorem signable_iff {v : PyValue} (hwf : v.WF) :
    Signable v ↔ checkApplicationNumbers v = .ok () ∧ ∃ data, canonicalJson v = .ok data := by
  rw [← jsonAble_iff_canonicalJson hwf]
  constructor
  · intro h
    exact ⟨check_of_allExact hwf h.exact, h.json⟩
  · rintro ⟨hcheck, hjson⟩
    exact ⟨allExact_of_check hcheck, hjson⟩

theorem signable_str {s : PyStr} : Signable (.str s) ↔ noSurrogates s = true := by
  constructor
  · exact fun h => h.json
  · exact fun h => ⟨allExact_of_check (check_str s), h⟩

/-- A dict can be signed if its keys and its values can. -/
theorem signable_dict {items : Items} (hwf : (PyValue.dict items).WF) :
    Signable (.dict items) ↔
      ∀ k v, getKey k items = some v → k.JsonAble ∧ Signable v := by
  obtain ⟨hnd, hitems⟩ := (PyValue.wf_dict items).mp hwf
  constructor
  · intro h k v hv
    have hmem := mem_of_getKey hv
    have hj := (PyValue.jsonAble_dict items).mp h.json _ hmem
    exact ⟨hj.1, h.exact.child (s := .key k) hv, hj.2⟩
  · intro h
    have hall : ∀ kv ∈ items, kv.1.JsonAble ∧ Signable kv.2 := fun kv hkv =>
      h kv.1 kv.2 (getKey_of_mem hnd hkv)
    refine ⟨allExact_of_check (check_dict.mpr fun kv hkv => ?_), ?_⟩
    · exact check_of_allExact (hitems kv hkv) (hall kv hkv).2.exact
    · exact (PyValue.jsonAble_dict items).mpr fun kv hkv => ⟨(hall kv hkv).1, (hall kv hkv).2.json⟩

theorem signable_dictOf {kvs : List (String × PyValue)} (hwf : (dictOf kvs).WF) :
    Signable (dictOf kvs) ↔ ∀ kv ∈ kvs, Signable kv.2 := by
  rw [dictOf, signable_dict hwf]
  have hnd := ((PyValue.wf_dict _).mp hwf).1
  constructor
  · intro h kv hkv
    have hmem := forall_mem_members (p := fun kv' => kv' ∈ members kvs).mp (fun _ h => h) kv hkv
    exact (h _ _ (getKey_of_mem hnd hmem)).2
  · intro h k v hv
    have hall := forall_mem_members (p := fun kv => kv.1.JsonAble ∧ Signable kv.2).mpr
      fun kv hkv => ⟨noSurrogates_lit kv.1, h kv hkv⟩
    exact hall _ (mem_of_getKey hv)

/-- The value that is replaced does not matter. -/
theorem signable_setStr {k : String} {v : PyValue} {items : Items} (hwf : (PyValue.dict items).WF)
    (hv : v.WF) : Signable (.dict (setStr k v items)) ↔
      Signable v ∧ ∀ k' w, k' ≠ .str (lit k) → getKey k' items = some w →
        k'.JsonAble ∧ Signable w := by
  rw [signable_dict (PyValue.wf_setStr hv hwf)]
  constructor
  · intro h
    refine ⟨(h _ _ (getKey_setKey_self _ _ _)).2, fun k' w hne hw => ?_⟩
    exact h k' w ((getKey_setKey_ne hne v items).trans hw)
  · rintro ⟨hsv, h⟩ k' w hw
    rcases eq_or_ne k' (.str (lit k)) with rfl | hne
    · rw [setStr, getKey_setKey_self, Option.some.injEq] at hw
      exact ⟨noSurrogates_lit k, hw ▸ hsv⟩
    · exact h k' w hne ((getKey_setKey_ne hne v items).symm.trans hw)

/-- A field that is new. -/
theorem signable_setStr_of_none {k : String} {v : PyValue} {items : Items}
    (hwf : (PyValue.dict items).WF) (hv : v.WF) (hnone : getStr k items = none) :
    Signable (.dict (setStr k v items)) ↔ Signable v ∧ Signable (.dict items) := by
  rw [signable_setStr hwf hv, signable_dict hwf]
  refine and_congr_right fun _ => ⟨fun h k' w hw => h k' w ?_ hw, fun h k' w _ hw => h k' w hw⟩
  rintro rfl
  cases hnone.symm.trans hw

/-- A field of a dict display. -/
theorem signable_setStr_members {k : String} {v : PyValue} {kvs : List (String × PyValue)}
    (hwf : (dictOf kvs).WF) (hv : v.WF) :
    Signable (.dict (setStr k v (members kvs))) ↔
      Signable v ∧ ∀ kv ∈ kvs, kv.1 ≠ k → Signable kv.2 := by
  rw [signable_setStr hwf hv]
  have hnd := ((PyValue.wf_dict _).mp hwf).1
  refine and_congr_right fun _ => ⟨fun h kv hkv hne => ?_, fun h k' w hne hw => ?_⟩
  · have hmem := forall_mem_members (p := fun kv' => kv' ∈ members kvs).mp (fun _ h => h) kv hkv
    refine (h _ _ (fun he => hne ?_) (getKey_of_mem hnd hmem)).2
    exact lit_injective (PyKey.str.inj he)
  · have hall := forall_mem_members (p := fun kv => kv.1 ≠ .str (lit k) →
      kv.1.JsonAble ∧ Signable kv.2).mpr fun kv hkv hk =>
        ⟨noSurrogates_lit kv.1, h kv hkv fun he => hk (he ▸ rfl)⟩
    exact hall _ (mem_of_getKey hw) hne

/-! ## What a constructor returns -/

variable {P : Platform} {privateKey : P.PrivateKey}

/-- An encoding is in the alphabet, and its length is that of the data. -/
theorem base64url_b64url {data : Bytes} {n : ℕ} (h : (data.length * 4 + 2) / 3 = n) :
    Base64url n (.str (ofChars (b64url data))) := by
  refine ⟨_, Or.inl rfl, by rw [length_ofChars, length_b64url, h], ?_⟩
  rw [b64url_eq, ofChars, List.map_map]
  intro c hc
  obtain ⟨d, hd, rfl⟩ := List.mem_map.mp hc
  exact sextetChar_inClass d (sextets_lt data d hd)

/-- A key has 43 characters. -/
theorem base64url_keyText (privateKey : P.PrivateKey) :
    Base64url 43 (.str (keyText P privateKey)) :=
  base64url_b64url (by rw [P.length_publicBytes])

theorem keyText_ne_nil (privateKey : P.PrivateKey) : 1 ≤ (keyText P privateKey).length := by
  rw [keyText, length_ofChars, publicKeyB64url, length_b64url, P.length_publicBytes]
  omega

/-- The signature passes the schema if the key identifier does. -/
theorem record_signature {kid : PyValue} (privateKey : P.PrivateKey) (data : Bytes) :
    Record signatureFields (.dict (setStr "sig" (.str (ofChars (b64url (P.sign privateKey data))))
      (blankSignature P privateKey kid))) ↔ NonEmpty kid := by
  have hget {k : String} {v : PyValue} (hk : k ≠ "sig") :
      getStr k (setStr "sig" v (blankSignature P privateKey kid)) =
        [("alg", .str (lit "Ed25519")), ("kid", kid), ("publicKey", .str (keyText P privateKey)),
          ("canonicalization", .str (lit "RFC8785")), ("sig", .str [])].lookup k :=
    (getStr_setStr_ne hk _ _).trans (getStr_members _ _)
  constructor
  · rintro ⟨_, he, h⟩
    cases he
    have hkid := h ⟨"kid", true, NonEmpty⟩ (by simp [signatureFields])
    rw [Field.Holds, hget (by decide)] at hkid
    exact hkid
  · intro hkid
    refine ⟨_, rfl, ?_⟩
    simp only [signatureFields, List.forall_mem_cons, List.not_mem_nil, false_implies, implies_true,
      and_true, Field.Holds]
    rw [hget (by decide), hget (by decide), hget (by decide), hget (by decide), getStr_setStr_self]
    exact ⟨⟨_, List.mem_singleton_self _, rfl⟩, hkid, base64url_keyText privateKey,
      ⟨_, List.mem_singleton_self _, rfl⟩, base64url_b64url (by rw [P.length_sign])⟩

/-- The body is a record, but for its signature. -/
structure IsRecord (P : Platform) (items : Items) : Prop where
  typed : ∀ f ∈ recordFields P.isDateTime, f.name ≠ "signature" → f.Holds items
  family : IsAction items ∨ IsCorrection items ∨ IsUncertainty items

section

variable {items items' : Items} (h : ∀ k, k ≠ "signature" → getStr k items' = getStr k items)

include h

/-- Whether a member is there does not depend on the signature. -/
theorem present_congr {k : String} (hk : k ≠ "signature") : Present k items' ↔ Present k items := by
  rw [Present, Present, h k hk]

/-- An action stays one when it is signed. -/
theorem IsAction.congr (ha : IsAction items) : IsAction items' where
  kind := by rw [KindOrNone, h _ (by decide)]; exact ha.kind
  action := (present_congr h (by decide)).mpr ha.action
  reason := (present_congr h (by decide)).mpr ha.reason
  trigger := (present_congr h (by decide)).mpr ha.trigger
  fix := (present_congr h (by decide)).mpr ha.fix
  supersedes := fun hs => ha.supersedes ((present_congr h (by decide)).mp hs)

/-- A correction stays one when it is signed. -/
theorem IsCorrection.congr (hc : IsCorrection items) : IsCorrection items' where
  kind := by rw [KindOrNone, h _ (by decide)]; exact hc.kind
  action := (present_congr h (by decide)).mpr hc.action
  reason := by rw [h _ (by decide)]; exact hc.reason
  trigger := (present_congr h (by decide)).mpr hc.trigger
  fix := (present_congr h (by decide)).mpr hc.fix
  supersedes := by rw [h _ (by decide)]; exact hc.supersedes

/-- An uncertainty stays one when it is signed. -/
theorem IsUncertainty.congr (hu : IsUncertainty items) : IsUncertainty items' where
  kind := (h _ (by decide)).trans hu.kind
  subject := by rw [h _ (by decide)]; exact hu.subject
  action := fun ha => hu.action ((present_congr h (by decide)).mp ha)
  fix := fun hf => hu.fix ((present_congr h (by decide)).mp hf)
  supersedes := fun hs => hu.supersedes ((present_congr h (by decide)).mp hs)

/-- The conditions on a record leave the signature out. -/
theorem IsRecord.congr (hr : IsRecord P items) : IsRecord P items' where
  typed f hf hne := by
    have hold := hr.typed f hf hne
    rwa [Field.Holds, ← h f.name hne] at hold
  family := hr.family.imp (.congr h) (Or.imp (.congr h) (.congr h))

end

theorem getStr_completed {kid : PyValue} {data : Bytes} {items : Items} {k : String}
    (hk : k ≠ "signature") : getStr k (completed privateKey kid data items) = getStr k items :=
  getStr_setStr_ne hk _ _

/-- The schema accepts a signed record if and only if it accepts what is signed. -/
theorem valid_completed_iff {kid : PyValue} {items : Items} {data : Bytes} :
    valid P.isDateTime acrV1 (.dict (completed privateKey kid data items)) = true ↔
      NonEmpty kid ∧ IsRecord P items := by
  have hget (k : String) (hk : k ≠ "signature") :
      getStr k (completed privateKey kid data items) = getStr k items :=
    getStr_completed hk
  have hsig : getStr "signature" (completed privateKey kid data items) = some _ :=
    getStr_setStr_self _ _ _
  rw [accepts_iff]
  constructor
  · rintro ⟨_, he, htyped, hfamily⟩
    cases he
    have hrec := htyped.kind_of (f := ⟨"signature", true, Record signatureFields⟩)
      (by simp [recordFields]) hsig
    exact ⟨(record_signature privateKey data).mp hrec,
      .congr (fun k hk => (hget k hk).symm) ⟨fun f hf _ => htyped f hf, hfamily⟩⟩
  · rintro ⟨hkid, hr⟩
    have hr' : IsRecord P _ := hr.congr hget
    refine ⟨_, rfl, fun f hf => ?_, hr'.family⟩
    rcases eq_or_ne f.name "signature" with hname | hne
    · have hfield : ∀ f ∈ recordFields P.isDateTime, f.name = "signature" →
          f = ⟨"signature", true, Record signatureFields⟩ := by
        simp [recordFields]
      rw [hfield f hf hname, Field.Holds, hsig]
      exact (record_signature privateKey data).mpr hkid
    · exact hr'.typed f hf hne

/-- `_sign` returns for a body that passes the check and has canonical bytes. -/
theorem sign_of_signable {items : Items} {kid : PyValue} {data : Bytes}
    (hcheck : checkApplicationNumbers (.dict items) = .ok ())
    (hdata : canonicalJson (.dict (blanked privateKey kid items)) = .ok data) :
    sign P (.dict items) privateKey kid =
      .ok (data, .dict (completed privateKey kid data items)) := by
  refine bind_eq_ok.mpr ⟨(), hcheck, bind_eq_ok.mpr ⟨_, rfl, bind_eq_ok.mpr ⟨data, hdata, ?_⟩⟩⟩
  refine bind_eq_ok.mpr ⟨_, setIn_eq_ok.mpr ⟨_, _, rfl, getStr_setStr_self _ _ _, rfl⟩, ?_⟩
  rw [setStr_setStr]
  rfl

/-- A signature of strings. -/
theorem signable_signed {kid : PyStr} (s : List Char) :
    Signable (.dict (setStr "sig" (.str (ofChars s)) (blankSignature P privateKey (.str kid)))) ↔
      noSurrogates kid = true := by
  refine (signable_setStr_members (blankSignature_wf (PyValue.wf_str _)) (PyValue.wf_str _)).trans ?_
  simp [signable_str, keyText]

/-- A constructor returns if its `kid` is a name, and its body can be signed and is a
record. -/
theorem finish_ok_iff_of_kid {kid : PyValue} {items : Items} (hwf : (PyValue.dict items).WF)
    (hnone : getStr "signature" items = none) :
    (∃ r, (finish P (.ok (.dict items)) privateKey kid).result = .ok r) ↔
      (∃ s, orDefault kid (.str (keyText P privateKey)) = .str s ∧ s ≠ [] ∧ noSurrogates s = true) ∧
        Signable (.dict items) ∧ IsRecord P items := by
  have hsigned (s : PyStr) (t : List Char) : Signable (.dict (setStr "signature" (.dict (setStr
        "sig" (.str (ofChars t)) (blankSignature P privateKey (.str s)))) items)) ↔
      noSurrogates s = true ∧ Signable (.dict items) :=
    (signable_setStr_of_none hwf (PyValue.wf_setStr (PyValue.wf_str _)
      (blankSignature_wf (PyValue.wf_str _))) hnone).trans (and_congr_left' (signable_signed t))
  have hwf' (s : PyStr) := @signed_wf P privateKey _ _ (PyValue.wf_str s) hwf
  constructor
  · rintro ⟨r, hr⟩
    obtain ⟨_, data, hb, _, hsign, hvalid⟩ := finish_returned hr
    cases hb
    obtain ⟨_, hcheck, _⟩ := bind_eq_ok.mp hsign
    obtain ⟨_, rfl⟩ := sign_eq_ok hsign
    obtain ⟨hacr, hcanon⟩ := (validateRecord_eq_ok P).mp hvalid
    obtain ⟨⟨s, hs, hlen⟩, hrec⟩ := valid_completed_iff.mp hacr
    rw [hs] at hcanon
    obtain ⟨hsurr, hbody⟩ := (hsigned s _).mp
      ((signable_iff (hwf' s _)).mpr ⟨check_completed hcheck s data, hcanon⟩)
    exact ⟨⟨s, hs, List.ne_nil_of_length_pos hlen, hsurr⟩, hbody, hrec⟩
  · rintro ⟨⟨s, hkid, hne, hsurr⟩, hs, hr⟩
    obtain ⟨hcheck, _⟩ := (signable_iff hwf).mp hs
    have hblank : Signable (.dict (blanked privateKey (.str s) items)) := by
      rw [blanked, ← sig_blankSignature]
      exact (hsigned s []).mpr ⟨hsurr, hs⟩
    obtain ⟨data, hdata⟩ := ((signable_iff (PyValue.wf_setStr
      (blankSignature_wf (PyValue.wf_str _)) hwf)).mp hblank).2
    obtain ⟨_, hcanon⟩ := (signable_iff (hwf' s _)).mp
      ((hsigned s (b64url (P.sign privateKey data))).mpr ⟨hsurr, hs⟩)
    refine ⟨.dict (completed privateKey (.str s) data items), ?_⟩
    have hacr : valid P.isDateTime acrV1 (.dict (completed privateKey (.str s) data items)) = true :=
      valid_completed_iff.mpr ⟨⟨s, rfl, List.length_pos_iff.mpr hne⟩, hr⟩
    have hvalid := (validateRecord_eq_ok P).mpr ⟨hacr, hcanon⟩
    have hsign := sign_of_signable hcheck hdata
    rw [← hkid] at hsign
    rw [finish_of_sign hsign, hkid, hvalid]
    rfl

/-- A constructor returns if its body can be signed and is a record. -/
theorem finish_ok_iff {items : Items} (hwf : (PyValue.dict items).WF)
    (hnone : getStr "signature" items = none) :
    (∃ r, (finish P (.ok (.dict items)) privateKey .none).result = .ok r) ↔
      Signable (.dict items) ∧ IsRecord P items :=
  (finish_ok_iff_of_kid hwf hnone).trans (and_iff_right ⟨_, rfl,
    List.ne_nil_of_length_pos (keyText_ne_nil privateKey), noSurrogates_ofChars _⟩)

theorem Call.wf {c : Call} {r : PyValue} (h : (c.outcome privateKey).result = .ok r) : r.WF := by
  obtain ⟨items, kid, data, _, hwf, _, _, _, _, rfl, _⟩ := c.returned h
  exact signed_wf (PyValue.wf_str kid) hwf _

/-- What a call returns, as an argument for others. -/
def Call.object (privateKey : P.PrivateKey) (c : Call) : Except PyErr PyObject :=
  match h : (c.outcome privateKey).result with
  | .ok r => .ok ⟨r, Call.wf h⟩
  | .error e => .error e

/-- A call as an object, and as its outcome. -/
theorem Call.object_eq_ok {c : Call} {o : PyObject} :
    c.object privateKey = .ok o ↔ (c.outcome privateKey).result = .ok o.val := by
  obtain ⟨v, hv⟩ := o
  rw [Call.object]
  split
  next r h =>
    rw [Except.ok.injEq, PyObject.mk.injEq]
    exact ⟨fun hv => hv ▸ h, fun hv => Except.ok.inj (h.symm.trans hv)⟩
  next e h =>
    exact iff_of_false (fun hv => by cases hv) fun hv => by cases h.symm.trans hv

theorem Call.exists_object {c : Call} :
    (∃ o, c.object privateKey = .ok o) ↔ ∃ r, (c.outcome privateKey).result = .ok r := by
  constructor
  · rintro ⟨o, ho⟩
    exact ⟨o.val, c.object_eq_ok.mp ho⟩
  · rintro ⟨r, hr⟩
    exact ⟨⟨r, Call.wf hr⟩, c.object_eq_ok.mpr hr⟩

/-! ## Fields of dict displays -/

/-- A field of a literal dict. -/
theorem holds_members {f : Field} {kvs : List (String × PyValue)} :
    f.Holds (members kvs) ↔
      match kvs.lookup f.name with
      | some w => f.kind w
      | none => f.required = false := by
  show (match getStr f.name (members kvs) with
      | some w => f.kind w
      | none => f.required = false) ↔ _
  rw [getStr_members]

/-- The fields of a display in which one is replaced. -/
theorem getStr_replaced {k k' : String} {v : PyValue} {kvs : List (String × PyValue)}
    (h : k' ≠ k) : getStr k' (setStr k v (members kvs)) = kvs.lookup k' :=
  (getStr_setStr_ne h _ _).trans (getStr_members _ _)

theorem holds_replaced {f : Field} {k : String} {v : PyValue} {kvs : List (String × PyValue)}
    (h : f.name ≠ k) : f.Holds (setStr k v (members kvs)) ↔ f.Holds (members kvs) := by
  rw [Field.Holds, Field.Holds, getStr_replaced h, getStr_members]

/-- Replacing one member leaves the conditions on the others. -/
theorem typed_replaced {fs : List Field} {k : String} {v : PyValue} {kvs : List (String × PyValue)}
    (hv : ∀ f ∈ fs, f.name = k → f.kind v)
    (hkvs : ∀ f ∈ fs, f.name ≠ k → f.name ≠ "signature" → f.Holds (members kvs)) :
    ∀ f ∈ fs, f.name ≠ "signature" → f.Holds (setStr k v (members kvs)) := by
  intro f hf hsig
  rcases eq_or_ne f.name k with hk | hne
  · rw [Field.Holds, hk, getStr_setStr_self]
    exact hv f hf hk
  · exact (holds_replaced hne).mpr (hkvs f hf hne hsig)

theorem record_dictOf {fs : List Field} {kvs : List (String × PyValue)} :
    Record fs (dictOf kvs) ↔ ∀ f ∈ fs, f.Holds (members kvs) := by
  constructor
  · rintro ⟨items, he, h⟩
    cases he
    exact h
  · exact fun h => ⟨_, rfl, h⟩

theorem nonEmpty_str {s : PyStr} : NonEmpty (.str s) ↔ s ≠ [] := by
  rw [NonEmpty, TextOf]
  constructor
  · rintro ⟨t, he, ht⟩
    cases he
    exact List.ne_nil_of_length_pos ht
  · exact fun h => ⟨s, rfl, List.length_pos_iff.mpr h⟩

theorem isObject_dictOf (kvs : List (String × PyValue)) : IsObject (dictOf kvs) := ⟨_, rfl⟩

/-- The agent of a tool call. -/
theorem record_agent {id : PyStr} :
    Record agentFields (dictOf [("id", .str id), ("publicKey", .str (keyText P privateKey))]) ↔
      id ≠ [] := by
  rw [record_dictOf]
  simp [agentFields, holds_members, List.lookup_cons, nonEmpty_str, base64url_keyText]

/-- The principal of a tool call. -/
theorem record_principal {id type : PyStr} :
    Record principalFields (dictOf [("id", .str id), ("type", .str type)]) ↔ id ≠ [] := by
  rw [record_dictOf]
  simp [principalFields, holds_members, List.lookup_cons, nonEmpty_str, Text]

/-- The action of a tool call. -/
theorem record_action {type : PyStr} :
    Record actionFields (dictOf [("type", .str type)]) ↔ type ≠ [] := by
  rw [record_dictOf]
  simp [actionFields, holds_members, List.lookup_cons, nonEmpty_str]

theorem record_noop : Record fixFields (dictOf [("type", .str (lit "noop"))]) := by
  rw [record_dictOf]
  simp [fixFields, holds_members, List.lookup_cons, OneOf]

/-! ## Records of tool calls -/

/-- What is known of a `uuid4` and of the current time in ISO format. -/
structure Env.Proper (P : Platform) (env : Env) : Prop where
  uuid_ne_nil : env.uuid ≠ []
  uuid : noSurrogates env.uuid = true
  now : noSurrogates env.now = true
  isDateTime : P.isDateTime env.now = true

/-- A string that can name something in a record. -/
def IsName (s : PyStr) : Prop := s ≠ [] ∧ noSurrogates s = true

instance (s : PyStr) : Decidable (IsName s) := inferInstanceAs (Decidable (_ ∧ _))

/-- A string. -/
def strObject (s : PyStr) : PyObject := ⟨.str s, PyValue.wf_str s⟩

/-- `{k: v}`. -/
def oneItem (k : String) (v : PyObject) : PyObject := ⟨dictOf [(k, v.val)], single_wf v.wf⟩

/-- `{k: v} if v else None`. -/
def callMetadata (k : String) (v : PyObject) : PyObject :=
  if truthy v.val then oneItem k v else .none

/-- The arguments of `record` for a tool call. -/
def toolRecord (agentId principalId actionType : PyStr) (args metadata : PyObject) :
    RecordArgs where
  agentId := strObject agentId
  principalId := strObject principalId
  actionType := strObject actionType
  actionArgs := args
  metadata := metadata

/-- The fields that the body of such a record starts with. -/
def toolFields (privateKey : P.PrivateKey) (env : Env) (agentId principalId actionType : PyStr)
    (metadata : PyValue) : List (String × PyValue) :=
  [("correctionId", .str env.uuid),
    ("agent", dictOf [("id", .str agentId), ("publicKey", .str (keyText P privateKey))]),
    ("principal", dictOf [("id", .str principalId), ("type", .str (lit "organization"))]),
    ("action", dictOf [("type", .str actionType)]), ("reason", .str []),
    ("trigger", .str (lit "supersede")), ("fix", dictOf [("type", .str (lit "noop"))]),
    ("timestamp", .str env.now), ("metadata", metadata)]

section

variable {env : Env} {agentId principalId actionType : PyStr} {args metadata : PyObject}

/-- The body of a tool call's record, when its arguments can be hashed. -/
theorem recordBody_toolRecord (hargs : args.val.isDict = true) {b : PyValue} :
    recordBody P privateKey env (toolRecord agentId principalId actionType args metadata) = .ok b ↔
      checkApplicationNumbers args.val = .ok () ∧ ∃ data, canonicalJson args.val = .ok data ∧
        setIn (dictOf (toolFields privateKey env agentId principalId actionType
          (orDefault metadata.val (dictOf [])))) "metadata" "inputHash" (hashObject P data) =
            .ok b := by
  obtain ⟨v, hv⟩ := args
  obtain ⟨items, rfl⟩ := PyValue.exists_dict_of_isDict hargs
  constructor
  · intro h
    obtain ⟨_, h1, h⟩ := bind_eq_ok.mp h
    obtain ⟨_, h2, h⟩ := bind_eq_ok.mp h
    cases h1
    cases h2
    obtain ⟨_, hcheck, h⟩ := bind_eq_ok.mp h
    obtain ⟨_, _, h⟩ := bind_eq_ok.mp h
    obtain ⟨_, h3, h4⟩ := bind_eq_ok.mp h
    cases h4
    obtain ⟨data, hdata, h3⟩ := bind_eq_ok.mp h3
    exact ⟨hcheck, data, hdata, h3⟩
  · rintro ⟨hcheck, data, hdata, h⟩
    refine bind_eq_ok.mpr ⟨_, rfl, bind_eq_ok.mpr ⟨_, rfl, bind_eq_ok.mpr ⟨(), hcheck, ?_⟩⟩⟩
    refine bind_eq_ok.mpr ⟨(), rfl, bind_eq_ok.mpr ⟨b, ?_, rfl⟩⟩
    exact bind_eq_ok.mpr ⟨data, hdata, h⟩

/-- The body of such a record. -/
def toolBody (privateKey : P.PrivateKey) (env : Env) (agentId principalId actionType : PyStr)
    (m : Items) (data : Bytes) : Items :=
  setStr "metadata" (.dict (setStr "inputHash" (hashObject P data) m))
    (members (toolFields privateKey env agentId principalId actionType (.dict m)))

variable {m : Items} {data : Bytes}

theorem toolFields_wf (hm : (PyValue.dict m).WF) :
    (dictOf (toolFields privateKey env agentId principalId actionType (.dict m))).WF := by
  refine dictOf_wf (by simp [toolFields]) ?_
  simp only [toolFields, List.forall_mem_cons, List.not_mem_nil, false_implies, implies_true,
    and_true, PyValue.wf_str, true_and]
  exact ⟨dictOf_wf (by simp) (by simp), dictOf_wf (by simp) (by simp), single_wf (PyValue.wf_str _),
    single_wf (PyValue.wf_str _), hm⟩

theorem toolBody_wf (hm : (PyValue.dict m).WF) :
    (PyValue.dict (toolBody privateKey env agentId principalId actionType m data)).WF :=
  PyValue.wf_setStr (PyValue.wf_setStr (hashObject_wf P data) hm) (toolFields_wf hm)

theorem signable_hashObject (data : Bytes) : Signable (hashObject P data) := by
  refine (signable_dictOf (hashObject_wf P data)).mpr ?_
  simp [signable_str]

/-- The body can be signed if the metadata and the texts in it can. -/
theorem signable_toolBody (henv : env.Proper P) (hm : (PyValue.dict m).WF)
    (hnone : getStr "inputHash" m = none) :
    Signable (.dict (toolBody privateKey env agentId principalId actionType m data)) ↔
      Signable (.dict m) ∧ noSurrogates agentId = true ∧ noSurrogates principalId = true ∧
        noSurrogates actionType = true := by
  rw [toolBody, signable_setStr_members (toolFields_wf hm)
    (PyValue.wf_setStr (hashObject_wf P data) hm),
    signable_setStr_of_none hm (hashObject_wf P data) hnone,
    and_iff_right (signable_hashObject data)]
  simp [toolFields, signable_dictOf, dictOf_wf, signable_str, keyText, henv.uuid, henv.now]

/-- The body is a record if the names in it are not empty. -/
theorem isRecord_toolBody (henv : env.Proper P) :
    IsRecord P (toolBody privateKey env agentId principalId actionType m data) ↔
      agentId ≠ [] ∧ principalId ≠ [] ∧ actionType ≠ [] := by
  rw [toolBody]
  constructor
  · intro h
    have hagent := (holds_replaced (by decide)).mp (h.typed ⟨"agent", true, Record agentFields⟩
      (by simp [recordFields]) (by decide))
    have hprincipal := (holds_replaced (by decide)).mp (h.typed
      ⟨"principal", true, Record principalFields⟩ (by simp [recordFields]) (by decide))
    have haction := (holds_replaced (by decide)).mp (h.typed ⟨"action", false, Record actionFields⟩
      (by simp [recordFields]) (by decide))
    rw [holds_members] at hagent hprincipal haction
    exact ⟨record_agent.mp hagent, record_principal.mp hprincipal, record_action.mp haction⟩
  · rintro ⟨h1, h2, h3⟩
    constructor
    · apply typed_replaced
      · simp [recordFields, IsObject]
      · simp [recordFields, toolFields, holds_members, List.lookup_cons, record_agent,
          record_principal, record_action, record_noop, nonEmpty_str, h1, h2, h3,
          henv.uuid_ne_nil, Text, Timestamp, henv.isDateTime, OneOf]
    · refine Or.inl ⟨Or.inl (getStr_replaced (by decide)), ?_, ?_, ?_, ?_, ?_⟩
      · exact ⟨_, getStr_replaced (by decide)⟩
      · exact ⟨_, getStr_replaced (by decide)⟩
      · exact ⟨_, getStr_replaced (by decide)⟩
      · exact ⟨_, getStr_replaced (by decide)⟩
      · exact not_present (getStr_replaced (by decide))

/-- `record` of a tool call returns if its names and its arguments can be signed. -/
theorem toolRecord_ok_iff (henv : env.Proper P) (hargs : args.val.isDict = true)
    (hmeta : orDefault metadata.val (dictOf []) = .dict m) (hnone : getStr "inputHash" m = none) :
    (∃ r, (record P privateKey env
        (toolRecord agentId principalId actionType args metadata)).result = .ok r) ↔
      Signable args.val ∧ Signable (.dict m) ∧
        IsName agentId ∧ IsName principalId ∧ IsName actionType := by
  have hm : (PyValue.dict m).WF := hmeta ▸ orDefault_wf metadata.wf rfl
  have hset (data : Bytes) : setIn (dictOf (toolFields privateKey env agentId principalId actionType
      (orDefault metadata.val (dictOf [])))) "metadata" "inputHash" (hashObject P data) =
        .ok (.dict (toolBody privateKey env agentId principalId actionType m data)) := by
    rw [hmeta]
    exact setIn_eq_ok.mpr ⟨_, _, rfl, (getStr_members _ _).trans rfl, rfl⟩
  have hfinish (data : Bytes) :
      (∃ r, (finish P (.ok (.dict (toolBody privateKey env agentId principalId actionType m data)))
        privateKey .none).result = .ok r) ↔
        Signable (.dict m) ∧ IsName agentId ∧ IsName principalId ∧ IsName actionType := by
    rw [finish_ok_iff (toolBody_wf hm) ((getStr_setStr_ne (by decide) _ _).trans
      (getStr_members _ _)), signable_toolBody henv hm hnone, isRecord_toolBody henv]
    simp only [IsName]
    tauto
  rw [signable_iff args.wf]
  constructor
  · rintro ⟨r, hr⟩
    obtain ⟨b, _, hb, _⟩ := finish_returned hr
    obtain ⟨hcheck, data, hdata, hset'⟩ := (recordBody_toolRecord hargs).mp hb
    rw [hset data, Except.ok.injEq] at hset'
    subst hset'
    refine ⟨⟨hcheck, data, hdata⟩, (hfinish data).mp ⟨r, ?_⟩⟩
    rw [← hr, record, hb]
    rfl
  · rintro ⟨⟨hcheck, data, hdata⟩, hnames⟩
    obtain ⟨r, hr⟩ := (hfinish data).mpr hnames
    have hb := (recordBody_toolRecord hargs).mpr ⟨hcheck, data, hdata, hset data⟩
    refine ⟨r, ?_⟩
    rw [record, hb]
    exact hr

/-- The fields of such a record. -/
theorem toolRecord_fields (hargs : args.val.isDict = true) {r : PyValue}
    (h : (record P privateKey env
      (toolRecord agentId principalId actionType args metadata)).result = .ok r) :
    ∃ items, r = .dict items ∧ ∀ k, k ≠ "metadata" → k ≠ "signature" → getStr k items =
      (toolFields privateKey env agentId principalId actionType
        (orDefault metadata.val (dictOf []))).lookup k := by
  obtain ⟨items, kid, sig, hb, _, _, _, _, _, rfl, _⟩ := Call.returned (c := .record env _) h
  obtain ⟨_, data, _, hset⟩ := (recordBody_toolRecord hargs).mp hb
  obtain ⟨_, inner, he, _, hitems⟩ := setIn_eq_ok.mp hset
  cases he
  cases hitems
  refine ⟨_, rfl, fun k hm hs => ?_⟩
  rw [getStr_completed hs, getStr_setStr_ne hm, getStr_members]

end

/-! ## Corrections of tool calls -/

/-- The arguments of `retract` for a tool call that failed. -/
def toolRetract (agentId principalId : PyStr) (priorRecord : PyObject) (reason fixNote : PyStr) :
    RetractArgs where
  agentId := strObject agentId
  principalId := strObject principalId
  priorRecord := priorRecord
  reason := strObject reason
  trigger := .str "check_failed"
  fixType := .str "replace"
  fixNote := strObject fixNote

/-- What a correction takes from the record it corrects. -/
structure Prior (P : Platform) (v : PyValue) (id actionType : PyStr) (data : Bytes) : Prop where
  data_eq : canonicalJson v = .ok data
  id_eq : v.getMethod "correctionId" .none = .ok (.str id)
  action_eq : ∃ action, v.getMethod "action" (dictOf []) = .ok action ∧
    action.getMethod "type" (.str (lit "unknown")) = .ok (.str actionType)
  id_name : IsName id
  type_name : IsName actionType

/-- A text that the schema takes and that can be signed is a name. -/
theorem isName_of_signable {s : PyStr} (h : NonEmpty (.str s)) (hs : (PyValue.str s).JsonAble) :
    IsName s := ⟨nonEmpty_str.mp h, hs⟩

/-- A returned record of an action can be corrected. -/
theorem prior_of_record {env : Env} {a : RecordArgs} {r : PyValue}
    (h : (record P privateKey env a).result = .ok r) :
    r.WF ∧ ∃ id actionType data, Prior P r id actionType data := by
  obtain ⟨items, rfl, htyped, haction⟩ := record_isAction h
  obtain ⟨_, _, _, _, _, hvalid⟩ := finish_returned h
  obtain ⟨data, hdata⟩ := ((validateRecord_eq_ok P).mp hvalid).2
  have hwf : (PyValue.dict items).WF := Call.wf (c := .record env a) h
  have hj := (jsonAble_iff_canonicalJson hwf).mpr ⟨data, hdata⟩
  obtain ⟨w, hw, hid⟩ := (htyped ⟨"correctionId", true, NonEmpty⟩
    (by simp [recordFields])).exists_of_required rfl
  have hstr := hid
  obtain ⟨id, rfl, _⟩ := hstr
  obtain ⟨w, hact⟩ := haction.action
  obtain ⟨inner, rfl, hfields⟩ := htyped.kind_of (f := ⟨"action", false, Record actionFields⟩)
    (by simp [recordFields]) hact
  obtain ⟨w, htype, hne⟩ := (hfields ⟨"type", true, NonEmpty⟩
    (by simp [actionFields])).exists_of_required rfl
  have hstr := hne
  obtain ⟨t, rfl, _⟩ := hstr
  refine ⟨hwf, id, t, data, hdata, ?_, ⟨.dict inner, ?_, ?_⟩, ?_, ?_⟩
  · exact PyValue.getMethod_eq_ok.mpr ⟨_, rfl, by rw [hw]; rfl⟩
  · exact PyValue.getMethod_eq_ok.mpr ⟨_, rfl, by rw [hact]; rfl⟩
  · exact PyValue.getMethod_eq_ok.mpr ⟨_, rfl, by rw [htype]; rfl⟩
  · exact isName_of_signable hid (PyValue.jsonAble_of_getKey hj hw)
  · have hjact := PyValue.jsonAble_of_getKey hj hact
    exact isName_of_signable hne (PyValue.jsonAble_of_getKey hjact htype)

/-- The fields that the body of such a correction starts with. -/
def retractFields (privateKey : P.PrivateKey) (env : Env)
    (agentId principalId id actionType : PyStr) (data : Bytes) (reason : PyStr) :
      List (String × PyValue) :=
  [("correctionId", .str env.uuid),
    ("agent", dictOf [("id", .str agentId), ("publicKey", .str (keyText P privateKey))]),
    ("principal", dictOf [("id", .str principalId), ("type", .str (lit "organization"))]),
    ("supersedes", dictOf [("receiptId", .str id), ("digest", hashObject P data)]),
    ("action", dictOf [("type", .str actionType)]), ("reason", .str reason),
    ("trigger", .str (lit "check_failed")), ("fix", dictOf [("type", .str (lit "replace"))]),
    ("timestamp", .str env.now), ("metadata", dictOf [])]

/-- The body of such a correction. -/
def toolRetractBody (privateKey : P.PrivateKey) (env : Env)
    (agentId principalId id actionType : PyStr) (data : Bytes) (reason fixNote : PyStr) : Items :=
  setStr "fix" (.dict (setStr "note" (.str fixNote) (members [("type", .str (lit "replace"))])))
    (members (retractFields privateKey env agentId principalId id actionType data reason))

section

variable {env : Env} {agentId principalId id actionType reason fixNote : PyStr} {data : Bytes}
  {prior : PyObject}

theorem truthy_str {s : PyStr} (h : s ≠ []) : truthy (.str s) = true := by
  rw [truthy, Bool.not_eq_true', List.isEmpty_eq_false_iff]
  exact h

/-- The body of a tool call's correction. -/
theorem retractBody_toolRetract (hp : Prior P prior.val id actionType data) (hnote : fixNote ≠ []) :
    retractBody P privateKey env (toolRetract agentId principalId prior reason fixNote) =
      .ok (.dict (toolRetractBody privateKey env agentId principalId id actionType data reason
        fixNote)) := by
  obtain ⟨action, haction, htype⟩ := hp.action_eq
  have hsup : supersedesField P prior.val =
      .ok (dictOf [("receiptId", .str id), ("digest", hashObject P data)]) := by
    refine bind_eq_ok.mpr ⟨data, hp.data_eq, bind_eq_ok.mpr ⟨_, hp.id_eq, bind_eq_ok.mpr ?_⟩⟩
    refine ⟨.str id, ?_, rfl⟩
    rw [orElse, if_pos (truthy_str hp.id_name.1)]
  have hfix : setInIf (truthy (.str fixNote)) (dictOf (retractFields privateKey env agentId
      principalId id actionType data reason)) "fix" "note" (.str fixNote) =
        .ok (.dict (toolRetractBody privateKey env agentId principalId id actionType data reason
          fixNote)) := by
    rw [setInIf, if_pos (truthy_str hnote)]
    exact setIn_eq_ok.mpr ⟨_, _, rfl, (getStr_members _ _).trans rfl, rfl⟩
  refine bind_eq_ok.mpr ⟨(), rfl, bind_eq_ok.mpr ⟨_, hsup, bind_eq_ok.mpr ⟨_, haction, ?_⟩⟩⟩
  refine bind_eq_ok.mpr ⟨_, htype, bind_eq_ok.mpr ⟨_, hfix, bind_eq_ok.mpr ⟨(), rfl, ?_⟩⟩⟩
  exact bind_eq_ok.mpr ⟨_, rfl, rfl⟩

theorem retractFields_wf :
    (dictOf (retractFields privateKey env agentId principalId id actionType data reason)).WF := by
  refine dictOf_wf (by simp [retractFields]) ?_
  simp only [retractFields, List.forall_mem_cons, List.not_mem_nil, false_implies, implies_true,
    and_true, PyValue.wf_str, true_and]
  exact ⟨dictOf_wf (by simp) (by simp), dictOf_wf (by simp) (by simp),
    dictOf_wf (by simp) (by simp [hashObject_wf]), single_wf (PyValue.wf_str _),
    single_wf (PyValue.wf_str _), dictOf_wf (by simp) (by simp)⟩

theorem fixField_wf : (PyValue.dict (setStr "note" (.str fixNote)
    (members [("type", .str (lit "replace"))]))).WF :=
  PyValue.wf_setStr (PyValue.wf_str _) (single_wf (PyValue.wf_str _))

/-- The body of the correction can be signed if its texts can. -/
theorem signable_toolRetractBody (henv : env.Proper P) (hid : IsName id)
    (htype : IsName actionType) :
    Signable (.dict (toolRetractBody privateKey env agentId principalId id actionType data reason
        fixNote)) ↔
      noSurrogates fixNote = true ∧ noSurrogates agentId = true ∧ noSurrogates principalId = true ∧
        noSurrogates reason = true := by
  rw [toolRetractBody, signable_setStr_members retractFields_wf fixField_wf,
    signable_setStr_members (single_wf (PyValue.wf_str _)) (PyValue.wf_str _)]
  simp [retractFields, signable_dictOf, dictOf_wf, signable_str, keyText, henv.uuid, henv.now,
    hashObject_wf, signable_hashObject, hid.2, htype.2]

/-- The body of the correction is a record if its names and its reason are not empty. -/
theorem isRecord_toolRetractBody (henv : env.Proper P) (hid : IsName id) (htype : IsName actionType)
    (hsha : ∀ data, (P.sha256 data).length = 32) :
    IsRecord P (toolRetractBody privateKey env agentId principalId id actionType data reason
        fixNote) ↔
      agentId ≠ [] ∧ principalId ≠ [] ∧ reason ≠ [] := by
  have hdigest : Record digestFields (hashObject P data) := by
    refine record_dictOf.mpr ?_
    simp [digestFields, holds_members, List.lookup_cons, OneOf, base64url_b64url, hsha]
  have hsup : Record supersedesFields
      (dictOf [("receiptId", .str id), ("digest", hashObject P data)]) := by
    refine record_dictOf.mpr ?_
    simp [supersedesFields, holds_members, List.lookup_cons, nonEmpty_str, hid.1, hdigest]
  have hfix : Record fixFields (.dict (setStr "note" (.str fixNote)
      (members [("type", .str (lit "replace"))]))) := by
    refine ⟨_, rfl, ?_⟩
    simp [fixFields, Field.Holds, getStr_setStr_ne, getStr_members, List.lookup_cons, OneOf, Text]
  rw [toolRetractBody]
  constructor
  · intro h
    have hagent := (holds_replaced (by decide)).mp (h.typed ⟨"agent", true, Record agentFields⟩
      (by simp [recordFields]) (by decide))
    have hprincipal := (holds_replaced (by decide)).mp (h.typed
      ⟨"principal", true, Record principalFields⟩ (by simp [recordFields]) (by decide))
    rw [holds_members] at hagent hprincipal
    refine ⟨record_agent.mp hagent, record_principal.mp hprincipal, ?_⟩
    rcases h.family with ha | hc | hu
    · exact absurd ⟨_, getStr_replaced (by decide)⟩ ha.supersedes
    · obtain ⟨s, hs, hne⟩ := hc.reason
      rw [getStr_replaced (by decide)] at hs
      cases hs
      exact hne
    · exact absurd ⟨_, getStr_replaced (by decide)⟩ hu.supersedes
  · rintro ⟨h1, h2, h3⟩
    constructor
    · apply typed_replaced
      · simp [recordFields, hfix]
      · simp [recordFields, retractFields, holds_members, List.lookup_cons, record_agent,
          record_principal, record_action, nonEmpty_str, h1, h2, henv.uuid_ne_nil, htype.1, hsup,
          isObject_dictOf, Text, Timestamp, henv.isDateTime, OneOf]
    · refine Or.inr (Or.inl ⟨Or.inl (getStr_replaced (by decide)), ?_, ?_, ?_, ?_, ?_⟩)
      · exact ⟨_, getStr_replaced (by decide)⟩
      · exact ⟨reason, getStr_replaced (by decide), h3⟩
      · exact ⟨_, getStr_replaced (by decide)⟩
      · exact ⟨_, getStr_setStr_self _ _ _⟩
      · exact ⟨_, getStr_replaced (by decide), hsup⟩

/-- `retract` of a tool call returns if its names and its reason can be signed. -/
theorem toolRetract_ok_iff (henv : env.Proper P) (hsha : ∀ data, (P.sha256 data).length = 32)
    (hp : Prior P prior.val id actionType data) (hnote : fixNote ≠ []) :
    (∃ r, (retract P privateKey env
        (toolRetract agentId principalId prior reason fixNote)).result = .ok r) ↔
      noSurrogates fixNote = true ∧ IsName agentId ∧ IsName principalId ∧ IsName reason := by
  rw [retract, retractBody_toolRetract hp hnote]
  refine (finish_ok_iff (PyValue.wf_setStr fixField_wf retractFields_wf)
    ((getStr_setStr_ne (by decide) _ _).trans (getStr_members _ _))).trans ?_
  rw [← toolRetractBody, signable_toolRetractBody henv hp.id_name hp.type_name,
    isRecord_toolRetractBody henv hp.id_name hp.type_name hsha]
  simp only [IsName]
  tauto

/-- The fields of such a correction. -/
theorem toolRetract_fields (hp : Prior P prior.val id actionType data) (hnote : fixNote ≠ [])
    {r : PyValue} (h : (retract P privateKey env
      (toolRetract agentId principalId prior reason fixNote)).result = .ok r) :
    ∃ items, r = .dict items ∧ ∀ k, k ≠ "fix" → k ≠ "signature" → getStr k items =
      (retractFields privateKey env agentId principalId id actionType data reason).lookup k := by
  obtain ⟨items, kid, sig, hb, _, _, _, _, _, rfl, _⟩ := Call.returned (c := .retract env _) h
  cases (retractBody_toolRetract hp hnote).symm.trans hb
  refine ⟨_, rfl, fun k hf hs => ?_⟩
  rw [getStr_completed hs, toolRetractBody, getStr_setStr_ne hf, getStr_members]

end

end Corrlog
