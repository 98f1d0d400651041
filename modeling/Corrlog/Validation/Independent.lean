import Corrlog.Core.Family
import Corrlog.Python.Decoders
import Corrlog.Standalone.Agreement

/-!
# The independent verifier

`validation/harness/independent_verifier.py` checks signatures and links and nothing
else: it knows no schema, decodes base64url leniently, and looks neither at who the
record says has signed it nor at identifiers.  Its canonical bytes are those of
`rfc8785.dumps`, which takes the integers below `2 ** 53` and raises for the others.

A record the core accepts it accepts, unless it holds a larger integer, which the core
rounds.  What the core checks besides is `IsStrict` for a record and `strictRules` for a
chain, and there is no other difference (`independent_verifier`).
-/

namespace Corrlog.Independent

open Python
open JsonSchema (OneOf Record)
open Linear (Continues History)
open Standalone (toDoubleDomain doubled_of_toDoubleDomain exists_toDoubleDomain)
open Rfc8785 (Implements Text allFloats allFloatsItems_iff allFloatsList_iff
  implements_canonicalJson text_iff_jcsRender)

variable (P : Platform) (dumps : PyValue → Except PyErr Bytes)

/-! ## The code -/

/-- `_b64url_decode`. -/
def b64urlDecode (s : PyValue) : Except PyErr Bytes :=
  match s with
  | .str s => urlsafeB64decode (s ++ ofChars (padding s.length))
  | _ => builtinError .TypeError

/-- `_b64url`. -/
def b64url (data : Bytes) : List Char := (urlsafeB64encode data).rdropWhile (· = '=')

/-- `pub`: the pinned key, or else the one the record names, none if there is no such key. -/
def pub (record sig : PyValue) (pinnedPub : Option P.PublicKey) :
    Except PyErr (Option P.PublicKey) :=
  match pinnedPub with
  | some key => .ok (some key)
  | none => do
      let encoded ← sig.getMethod "publicKey" .none
      let encoded ← orElse encoded do
        let agent ← record.getMethod "agent" (dictOf [])
        agent.getMethod "publicKey" .none
      if !truthy encoded then return none
      else
        match b64urlDecode encoded with
        | .ok raw => return P.fromPublicBytes raw
        | .error _ => return none

/-- What is signed: the record with its signature last, and that without its `sig`. -/
def body (items sig : Items) : PyValue :=
  .dict (items.filter (·.1 ≠ .str (lit "signature")) ++
    [(.str (lit "signature"), .dict (setStr "sig" (.str []) sig))])

/-- The first entry of what `verify_record` returns for a record with a signature. -/
def verifySignature (items sig : Items) (pinnedPub : Option P.PublicKey) : Except PyErr Bool := do
  let alg ← (PyValue.dict sig).getMethod "alg" .none
  let canonicalization ← (PyValue.dict sig).getMethod "canonicalization" .none
  let encoded ← (PyValue.dict sig).getMethod "sig" .none
  if !alg.pyEq (.str (lit "Ed25519")) || !canonicalization.pyEq (.str (lit "RFC8785")) ||
      !truthy encoded then return false
  else
    match b64urlDecode encoded with
    | .error _ => return false
    | .ok raw =>
        match ← pub P (.dict items) (.dict sig) pinnedPub, dumps (body items sig) with
        | some key, .ok data => return P.verify key raw data
        | _, _ => return false

/-- The first entry of what `verify_record` returns. -/
def verifyRecord (record : PyValue) (pinnedPub : Option P.PublicKey) : Except PyErr Bool :=
  match record with
  | .dict items =>
      match getStr "signature" items with
      | some (.dict sig) => verifySignature P dumps items sig pinnedPub
      | _ => .ok false
  | _ => .ok false

/-- The link of a record to the one before it. -/
def linked (previous : Option PyValue) (record : PyValue) : Except PyErr Bool :=
  match previous with
  | none => (record.getMethod "supersedes" .none).map fun sup => !(record.isDict && truthy sup)
  | some previous => do
      let sup ← record.getMethod "supersedes" .none
      if !sup.isDict then return false
      else
        let digest ← sup.getMethod "digest" (dictOf [])
        let expected ← digest.getMethod "digest" .none
        if !truthy expected then return false
        else
          let data ← dumps previous
          return (PyValue.str (ofChars (b64url (P.sha256 data)))).pyEq expected

/-- The loop of `verify_chain`, from a record on. -/
def chainLoop (pinnedPub : Option P.PublicKey) :
    Option PyValue → List PyValue → Except PyErr Bool
  | _, [] => .ok true
  | previous, record :: records => do
      if ← verifyRecord P dumps record pinnedPub then
        if ← linked P dumps previous record then chainLoop pinnedPub (some record) records
        else return false
      else return false

/-- The first entry of what `verify_chain` returns. -/
def verifyChain (records : List PyValue) (pinnedPub : Option P.PublicKey) : Except PyErr Bool :=
  chainLoop P dumps pinnedPub none records

/-! ## Canonical bytes -/

mutual

/-- Every integer in the value is below `2 ** 53`. -/
def safeInts : PyValue → Bool
  | .int n => decide (n.natAbs < 2 ^ 53)
  | .list xs => safeIntsList xs
  | .tuple xs => safeIntsList xs
  | .dict items => safeIntsItems items
  | _ => true

/-- `safeInts` of every element. -/
def safeIntsList : List PyValue → Bool
  | [] => true
  | x :: xs => safeInts x && safeIntsList xs

/-- `safeInts` of every value. -/
def safeIntsItems : Items → Bool
  | [] => true
  | (_, v) :: items => safeInts v && safeIntsItems items

end

/-- `dumps` gives a value whose integers are below `2 ** 53` the text that RFC 8785 gives
it with these as floats, and raises for the others. -/
def ImplementsSafe (dumps : PyValue → Except PyErr Bytes) : Prop :=
  ∀ v, v.WF → ∀ b, dumps v = .ok b ↔
    safeInts v = true ∧ ∃ w t, toDoubleDomain v = .ok w ∧ Text w t ∧ utf8 t = b

theorem safeIntsList_iff (xs : List PyValue) :
    safeIntsList xs = true ↔ ∀ x ∈ xs, safeInts x = true := by
  induction xs with
  | nil => simp [safeIntsList]
  | cons x xs ih => simp [safeIntsList, ih]

theorem safeIntsItems_iff (items : Items) :
    safeIntsItems items = true ↔ ∀ kv ∈ items, safeInts kv.2 = true := by
  induction items with
  | nil => simp [safeIntsItems]
  | cons kv items ih => simp [safeIntsItems, ih]

theorem safeInts_dict {items : Items} (hwf : (PyValue.dict items).WF) :
    safeInts (.dict items) = true ↔ ∀ k w, getKey k items = some w → safeInts w = true := by
  rw [safeInts, safeIntsItems_iff]
  constructor
  · intro h k w hw
    exact h _ (mem_of_getKey hw)
  · intro h kv hkv
    exact h kv.1 kv.2 (getKey_of_mem ((PyValue.wf_dict _).mp hwf).1 hkv)

theorem safeInts_of_allFloats {v : PyValue} (h : allFloats v = true) : safeInts v = true := by
  induction v with
  | int n => cases h
  | list xs ih =>
      rw [allFloats, allFloatsList_iff] at h
      exact (safeIntsList_iff xs).mpr fun x hx => ih x hx (h x hx)
  | tuple xs ih =>
      rw [allFloats, allFloatsList_iff] at h
      exact (safeIntsList_iff xs).mpr fun x hx => ih x hx (h x hx)
  | dict items ih =>
      rw [allFloats, allFloatsItems_iff] at h
      exact (safeIntsItems_iff items).mpr fun kv hkv => ih kv hkv (h kv hkv)
  | _ => rfl

/-- The text of RFC 8785 is the one the core renders. -/
theorem text_iff_canonicalJson {v : PyValue} (hwf : v.WF) {b : Bytes} :
    (∃ w t, toDoubleDomain v = .ok w ∧ Text w t ∧ utf8 t = b) ↔ canonicalJson v = .ok b := by
  rw [canonicalJson_ok_iff]
  constructor
  · rintro ⟨w, t, hw, ht, rfl⟩
    have hd := doubled_of_toDoubleDomain hw
    exact ⟨t, hd.render ▸ (text_iff_jcsRender (hd.wf hwf) hd.allFloats).mp ht, rfl⟩
  · rintro ⟨t, ht, rfl⟩
    obtain ⟨w, hw⟩ := exists_toDoubleDomain (jsonAble_of_jcsRender ht)
    have hd := doubled_of_toDoubleDomain hw
    exact ⟨w, t, hw, (text_iff_jcsRender (hd.wf hwf) hd.allFloats).mpr (hd.render ▸ ht), rfl⟩

/-- For safe values the bytes are the core's. -/
theorem dumps_iff {dumps : PyValue → Except PyErr Bytes} (hdumps : ImplementsSafe dumps)
    {v : PyValue} (hwf : v.WF) {b : Bytes} :
    dumps v = .ok b ↔ safeInts v = true ∧ canonicalJson v = .ok b := by
  rw [hdumps v hwf, text_iff_canonicalJson hwf]

/-- On floats alone there is nothing that it refuses. -/
theorem ImplementsSafe.implements {dumps : PyValue → Except PyErr Bytes}
    (hdumps : ImplementsSafe dumps) : Implements dumps := by
  intro v hwf hf b
  rw [dumps_iff hdumps hwf, and_iff_right (safeInts_of_allFloats hf)]
  exact implements_canonicalJson v hwf hf b

/-- The core's bytes, for safe values. -/
def safeJson (v : PyValue) : Except PyErr Bytes :=
  if safeInts v then canonicalJson v else builtinError .ValueError

theorem implements_safeJson : ImplementsSafe safeJson := by
  intro v hwf b
  rw [text_iff_canonicalJson hwf, safeJson]
  cases safeInts v with
  | true => simp
  | false => simp [builtinError]

/-! ## What is signed -/

section

variable {items sigMeta agent : Items} {id : PyStr}

theorem getKey_filter (k : PyKey) {k' : PyKey} (items : Items) :
    getKey k (items.filter (·.1 ≠ k')) = if k = k' then none else getKey k items := by
  induction items with
  | nil => simp [getKey]
  | cons kv items ih =>
      obtain ⟨k₁, v⟩ := kv
      by_cases h : k₁ = k'
      · rw [List.filter_cons_of_neg (by simpa using h), ih, getKey]
        by_cases hk : k = k'
        · rw [if_pos hk, if_pos hk]
        · rw [if_neg hk, if_neg hk, if_neg fun he => hk (he.symm.trans h)]
      · rw [List.filter_cons_of_pos (by simpa using h), getKey, getKey, ih]
        by_cases hk : k₁ = k
        · rw [if_pos hk, if_pos hk, if_neg (fun he => h (hk.trans he))]
        · rw [if_neg hk, if_neg hk]

theorem getKey_append (k : PyKey) (items items' : Items) :
    getKey k (items ++ items') = (getKey k items).or (getKey k items') := by
  induction items with
  | nil => simp [getKey]
  | cons kv items ih =>
      obtain ⟨k', v⟩ := kv
      rw [List.cons_append, getKey, getKey, ih]
      split
      next => rfl
      next => rfl

/-- The place of the signature apart, the body is the payload of the core. -/
theorem getKey_body (k : PyKey) (v : PyValue) (items : Items) :
    getKey k (items.filter (·.1 ≠ .str (lit "signature")) ++ [(.str (lit "signature"), v)]) =
      getKey k (setStr "signature" v items) := by
  rw [getKey_append, getKey_filter, setStr]
  by_cases hk : k = .str (lit "signature")
  · rw [if_pos hk, hk, getKey_setKey_self, getKey, if_pos rfl, Option.none_or]
  · rw [if_neg hk, getKey_setKey_ne hk, getKey, if_neg (Ne.symm hk), getKey, Option.or_none]

theorem body_wf (hwf : (PyValue.dict items).WF)
    (hsm : getStr "signature" items = some (.dict sigMeta)) : (body items sigMeta).WF := by
  have hsig := PyValue.wf_of_getKey hwf hsm
  rw [PyValue.wf_dict] at hwf
  rw [body, PyValue.wf_dict]
  constructor
  · rw [List.map_append, List.nodup_append]
    refine ⟨hwf.1.sublist (List.filter_sublist.map _), by simp, fun k hk k' hk' he => ?_⟩
    obtain ⟨kv, hkv, rfl⟩ := List.mem_map.mp hk
    rw [List.map_cons, List.map_nil, List.mem_singleton] at hk'
    exact (by simpa using (List.mem_filter.mp hkv).2 : kv.1 ≠ _) (he.trans hk')
  · intro kv hkv
    rcases List.mem_append.mp hkv with h | h
    · exact hwf.2 kv (List.mem_filter.mp h).1
    · rw [List.mem_singleton.mp h]
      exact PyValue.wf_setStr (PyValue.wf_str []) hsig

/-- The order in which the signature is put back does not matter. -/
theorem canonicalJson_body (hwf : (PyValue.dict items).WF) (hs : Shape items id agent sigMeta)
    {data : Bytes} : canonicalJson (body items sigMeta) = .ok data ↔
      (payload (.dict items) >>= canonicalJson) = .ok data := by
  have hb := body_wf hwf hs.sigMeta_eq
  have hp := payload_wf hwf hs.sigMeta_eq
  rw [payload_eq hs]
  have hsame {v w : Items} (hv : (PyValue.dict v).WF) (hw : (PyValue.dict w).WF)
      (hget : ∀ k, getKey k v = getKey k w) (h : canonicalJson (.dict v) = .ok data) :
      canonicalJson (.dict w) = .ok data := by
    have hj := (jsonAble_iff_canonicalJson hv).mpr ⟨data, h⟩
    rw [canonicalJson_of_same hv hj hw (PyValue.same_dict_of_getKey hv fun k => ?_), h]
    rw [← hget]
    cases hk : getKey k v with
    | none => exact .none
    | some u => exact .some (PyValue.same_refl (PyValue.jsonAble_of_getKey hj hk))
  exact ⟨hsame hb hp fun k => getKey_body k _ items,
    hsame hp hb fun k => (getKey_body k _ items).symm⟩

theorem safeInts_setStr {k : String} {v w : PyValue} (hwf : (PyValue.dict items).WF) (hv : v.WF)
    (hw : getStr k items = some w) (hvw : safeInts v = safeInts w) :
    safeInts (.dict (setStr k v items)) = safeInts (.dict items) := by
  rw [Bool.eq_iff_iff, safeInts_dict (PyValue.wf_setStr hv hwf), safeInts_dict hwf]
  refine forall_congr' fun k' => ?_
  by_cases hk : k' = .str (lit k)
  · rw [hk, setStr, getKey_setKey_self, show getKey (.str (lit k)) items = some w from hw]
    simp [hvw]
  · rw [setStr, getKey_setKey_ne hk]

/-- The body has the integers of the record. -/
theorem safeInts_body (hwf : (PyValue.dict items).WF)
    (hsm : getStr "signature" items = some (.dict sigMeta)) {sig : PyStr}
    (hsig : getStr "sig" sigMeta = some (.str sig)) :
    safeInts (body items sigMeta) = safeInts (.dict items) := by
  have hwfs := PyValue.wf_of_getKey hwf hsm
  have hblank := PyValue.wf_setStr (k := "sig") (PyValue.wf_str []) hwfs
  rw [← safeInts_setStr hwf hblank hsm (safeInts_setStr hwfs (PyValue.wf_str []) hsig rfl),
    Bool.eq_iff_iff, body, safeInts_dict (body_wf hwf hsm),
    safeInts_dict (PyValue.wf_setStr hblank hwf)]
  simp only [getKey_body]

end

/-! ## Records -/

/-- What the core finds in a record before it verifies the signature: a valid record of
one key throughout, which is the pinned one, and a signature as the core writes it. -/
structure Strict (publicKey : Option P.PublicKey) (items : Items) (id : PyStr)
    (agent sigMeta : Items) (k : P.PublicKey) (sig : Bytes) : Prop
    extends Shape items id agent sigMeta where
  accepted : validateRecord P (.dict items) = .ok ()
  key_eq : getStr "publicKey" sigMeta = some (.str (ofChars (publicKeyB64url P k)))
  agentKey_eq : ∀ w, getStr "publicKey" agent = some w → w = .str (ofChars (publicKeyB64url P k))
  length_sig : sig.length = 64
  sig_eq : getStr "sig" sigMeta = some (.str (ofChars (Corrlog.b64url sig)))
  pinned : ∀ k' ∈ publicKey, k' = k

/-- The record is strict. -/
def IsStrict (publicKey : Option P.PublicKey) (record : PyValue) : Prop :=
  ∃ items id agent sigMeta k sig, record = .dict items ∧
    Strict P publicKey items id agent sigMeta k sig

section

variable {P} {dumps} {publicKey : Option P.PublicKey} {items agent sigMeta : Items} {id : PyStr}
  {k : P.PublicKey} {sig : Bytes}

/-- What the core verifies is strict. -/
theorem Strict.of_verified {data : Bytes} (h : Verified P items id agent sigMeta k sig data)
    (hk : ∀ k' ∈ publicKey, k' = k) : Strict P publicKey items id agent sigMeta k sig :=
  ⟨h.toShape, h.accepted, h.key_eq, h.agentKey_eq, h.length_sig, h.sig_eq, hk⟩

/-- The decoder that skips reads what the core writes. -/
theorem b64urlDecode_b64url (data : Bytes) :
    b64urlDecode (.str (ofChars (Corrlog.b64url data))) = .ok data := by
  have hlen : (ofChars (Corrlog.b64url data)).length % 4 ≠ 1 := by
    rw [length_ofChars, length_b64url]
    omega
  have hns : (ofChars (Corrlog.b64url data)).mapM (fun c => ordSextet (ord c)) =
      some (sextets data) := by
    rw [b64url_eq, mapM_ordSextet (sextets_lt data)]
  exact urlsafeB64decode_eq hns (ofSextets_sextets data) hlen

theorem truthy_b64url {data : Bytes} (h : data ≠ []) :
    truthy (.str (ofChars (Corrlog.b64url data))) = true := by
  have hlen := List.length_pos_iff.mpr h
  have hne : ofChars (Corrlog.b64url data) ≠ [] := by
    rw [← List.length_pos_iff, length_ofChars, length_b64url]
    omega
  simpa [truthy] using hne

/-- Without a pinned key it verifies with the key that the signature names. -/
theorem Strict.pub_eq (h : Strict P publicKey items id agent sigMeta k sig) :
    pub P (.dict items) (.dict sigMeta) publicKey = .ok (some k) := by
  cases hp : publicKey with
  | some k' => rw [pub, h.pinned k' hp]
  | none =>
      have hlen := P.length_publicBytes k
      have hne := List.ne_nil_of_length_pos (by omega : 0 < (P.publicBytes k).length)
      have hget : (PyValue.dict sigMeta).getMethod "publicKey" .none =
          .ok (.str (ofChars (publicKeyB64url P k))) :=
        PyValue.getMethod_eq_ok.mpr ⟨_, rfl, by rw [h.key_eq]; rfl⟩
      rw [pub]
      refine bind_eq_ok.mpr ⟨_, hget, bind_eq_ok.mpr ⟨_, if_pos (truthy_b64url hne), ?_⟩⟩
      rw [publicKeyB64url, truthy_b64url hne, b64urlDecode_b64url, if_neg (by decide)]
      exact congrArg Except.ok ((P.fromPublicBytes_iff _ k).mpr rfl)

theorem Strict.signature_eq (h : Strict P publicKey items id agent sigMeta k sig) :
    getStr "alg" sigMeta = some (.str (lit "Ed25519")) ∧
      getStr "canonicalization" sigMeta = some (.str (lit "RFC8785")) := by
  have htyped := (typed_of_valid h.accepted).1
  obtain ⟨_, he, hfields⟩ := htyped.kind_of (f := ⟨"signature", true, Record signatureFields⟩)
    (by simp [recordFields]) h.sigMeta_eq
  cases he
  obtain ⟨_, halg, _, ht, rfl⟩ :=
    (hfields ⟨"alg", true, OneOf ["Ed25519"]⟩ (by simp [signatureFields])).exists_of_required rfl
  obtain ⟨_, hcanon, _, ht', rfl⟩ :=
    (hfields ⟨"canonicalization", true, OneOf ["RFC8785"]⟩
      (by simp [signatureFields])).exists_of_required rfl
  rw [List.mem_singleton] at ht ht'
  subst ht ht'
  exact ⟨halg, hcanon⟩

/-- Of a strict record only the signature is left to verify. -/
theorem Strict.verifyRecord_iff (h : Strict P publicKey items id agent sigMeta k sig) :
    verifyRecord P dumps (.dict items) publicKey = .ok true ↔
      ∃ data, dumps (body items sigMeta) = .ok data ∧ P.verify k sig data = true := by
  obtain ⟨halg, hcanon⟩ := h.signature_eq
  have hlen := h.length_sig
  have htruthy := truthy_b64url (List.ne_nil_of_length_pos (by omega : 0 < sig.length))
  have hget {k : String} {w : PyValue} (hw : getStr k sigMeta = some w) :
      (PyValue.dict sigMeta).getMethod k .none = .ok w :=
    PyValue.getMethod_eq_ok.mpr ⟨_, rfl, by rw [hw]; rfl⟩
  have hpyEq (s : PyStr) : (PyValue.str s).pyEq (.str s) = true := PyValue.pyEq_str_iff.mpr rfl
  rw [verifyRecord, h.sigMeta_eq]
  dsimp only
  rw [verifySignature, hget halg, hget hcanon, hget h.sig_eq]
  simp only [bind, Except.bind, hpyEq, htruthy, b64urlDecode_b64url, h.pub_eq]
  cases hd : dumps (body items sigMeta) with
  | ok data => simp [pure, Except.pure]
  | error e => simp [pure, Except.pure]

/-- The core accepts a record without larger integers exactly if it is strict and the
independent verifier accepts it. -/
theorem verify_and_safeInts (hdumps : ImplementsSafe dumps) {record : PyValue}
    (hwf : record.WF) :
    verify P record publicKey = true ∧ safeInts record = true ↔
      IsStrict P publicKey record ∧ verifyRecord P dumps record publicKey = .ok true := by
  rw [verify_iff]
  constructor
  · rintro ⟨⟨items, id, agent, sigMeta, k, sig, data, rfl, hver, hk⟩, hsafe⟩
    have hs := Strict.of_verified hver hk
    refine ⟨⟨items, id, agent, sigMeta, k, sig, rfl, hs⟩, hs.verifyRecord_iff.mpr
      ⟨data, (dumps_iff hdumps (body_wf hwf hs.sigMeta_eq)).mpr ⟨?_, ?_⟩, hver.signed⟩⟩
    · rw [safeInts_body hwf hs.sigMeta_eq hs.sig_eq, hsafe]
    · exact (canonicalJson_body hwf hs.toShape).mpr hver.data_eq
  · rintro ⟨⟨items, id, agent, sigMeta, k, sig, rfl, hs⟩, h⟩
    obtain ⟨data, hdata, hsigned⟩ := hs.verifyRecord_iff.mp h
    obtain ⟨hsafe, hdata⟩ := (dumps_iff hdumps (body_wf hwf hs.sigMeta_eq)).mp hdata
    rw [safeInts_body hwf hs.sigMeta_eq hs.sig_eq] at hsafe
    rw [canonicalJson_body hwf hs.toShape] at hdata
    exact ⟨⟨items, id, agent, sigMeta, k, sig, data, rfl, ⟨hs.toShape, hs.accepted, hs.key_eq,
      hs.agentKey_eq, hs.length_sig, hs.sig_eq, hdata, hsigned⟩, hs.pinned⟩, hsafe⟩

end

/-! ## Chains -/

/-- A digest object. -/
def digestObject (text : PyStr) : PyValue :=
  dictOf [("alg", .str (lit "sha256")), ("digest", .str text)]

/-- The record names another one by identifier and by some digest. -/
def Names (previous record : PyValue) : Prop :=
  ∃ items sup digest text, record = .dict items ∧
    Supersedes items sup (recordId previous) digest ∧ digest.pyEq (digestObject text) = true

/-- What the core asks of a chain besides what the independent verifier checks. -/
def strictRules (publicKey : Option P.PublicKey) : Linear.Rules PyValue PyStr where
  ok := IsStrict P publicKey
  id := recordId
  first _ := True
  next := Names

section

variable {P} {dumps} {publicKey : Option P.PublicKey}

theorem digestObject_wf (text : PyStr) : (digestObject text).WF := by
  rw [digestObject, dictOf, PyValue.wf_members]
  simp

theorem pyEq_digestObject {v : PyValue} (hv : v.WF) {text : PyStr}
    (h : v.pyEq (digestObject text) = true) :
    ∃ items, v = .dict items ∧ getStr "digest" items = some (.str text) := by
  have hwf := digestObject_wf text
  have hstr : ∀ kv ∈ members [("alg", .str (lit "sha256")), ("digest", .str text)],
      ∃ s, kv.2 = .str s := forall_mem_members.mpr (by simp)
  rw [digestObject, dictOf] at h hwf
  rw [PyValue.pyEq_dict_iff hv hwf hstr] at h
  obtain ⟨items, rfl⟩ := PyValue.exists_dict_of_isDict ((PyValue.isDict_of_same h).trans rfl)
  obtain ⟨w, hw, hsame⟩ := PyValue.exists_getStr_of_same hv (PyValue.same_symm hwf h)
    (k := "digest") (v := .str text) (by rw [getStr_members]; rfl)
  cases hsame
  exact ⟨items, rfl, hw⟩

/-- What a valid record says of another one. -/
theorem exists_sup {items : Items} (hvalid : validateRecord P (.dict items) = .ok ()) {w : PyValue}
    (hw : getStr "supersedes" items = some w) :
    ∃ sup digest text, w = .dict sup ∧ sup ≠ [] ∧ getStr "digest" sup = some (.dict digest) ∧
      getStr "digest" digest = some (.str text) ∧ text ≠ [] := by
  obtain ⟨sup, rfl, hsup⟩ := (typed_of_valid hvalid).1.kind_of
    (f := ⟨"supersedes", false, Record supersedesFields⟩) (by simp [recordFields]) hw
  obtain ⟨_, hd, digest, rfl, hdigest⟩ := (hsup ⟨"digest", true, Record digestFields⟩
    (by simp [supersedesFields])).exists_of_required rfl
  obtain ⟨_, ht, s, hs, hlen, _⟩ := (hdigest ⟨"digest", true, Base64url 43⟩
    (by simp [digestFields])).exists_of_required rfl
  have hne : sup ≠ [] := by
    rintro rfl
    cases hd
  have hs0 : s ≠ [] := List.ne_nil_of_length_pos (by omega)
  rcases hs with rfl | rfl
  · exact ⟨sup, digest, s, rfl, hne, hd, ht, hs0⟩
  · exact ⟨sup, digest, _, rfl, hne, hd, ht, by simp⟩

/-- The first record names no other one. -/
theorem linked_none_iff {record : PyValue} (hs : IsStrict P publicKey record) :
    Corrlog.linked P none record = .ok true ↔ linked P dumps none record = .ok true := by
  obtain ⟨items, _, _, _, _, _, rfl, hs⟩ := hs
  rw [linked_none, linked]
  cases hsup : getStr "supersedes" items with
  | none =>
      have hget : (PyValue.dict items).getMethod "supersedes" .none = .ok .none :=
        PyValue.getMethod_eq_ok.mpr ⟨_, rfl, by rw [hsup]; rfl⟩
      simp [hget, Except.map, PyValue.isDict, truthy]
  | some w =>
      obtain ⟨sup, _, _, rfl, hne, _⟩ := exists_sup hs.accepted hsup
      have hget : (PyValue.dict items).getMethod "supersedes" .none = .ok (.dict sup) :=
        PyValue.getMethod_eq_ok.mpr ⟨_, rfl, by rw [hsup]; rfl⟩
      simp [hget, Except.map, PyValue.isDict, truthy, hne]

/-- Of a record that names another one, the digest is left to compare. -/
theorem linked_iff {previous : PyValue} {items sup : Items} {id text : PyStr} {digest : PyValue}
    (hvalid : validateRecord P (.dict items) = .ok ()) (hwf : (PyValue.dict items).WF)
    (hs : Supersedes items sup id digest) (heq : digest.pyEq (digestObject text) = true) :
    linked P dumps (some previous) (.dict items) = .ok true ↔
      ∃ data, dumps previous = .ok data ∧ ofChars (Corrlog.b64url (P.sha256 data)) = text := by
  obtain ⟨_, digest', text', he, _, hdigest, htext, hne⟩ := exists_sup hvalid hs.sup_eq
  cases he
  have hd := hs.digest_eq
  rw [hdigest, Option.getD_some] at hd
  subst hd
  obtain ⟨_, he, htext'⟩ := pyEq_digestObject
    (PyValue.wf_of_getKey (PyValue.wf_of_getKey hwf hs.sup_eq) hdigest) heq
  cases he
  rw [htext, Option.some.injEq, PyValue.str.injEq] at htext'
  subst htext'
  have hsup : (PyValue.dict items).getMethod "supersedes" .none = .ok (.dict sup) :=
    PyValue.getMethod_eq_ok.mpr ⟨_, rfl, by rw [hs.sup_eq]; rfl⟩
  have hdig : (PyValue.dict sup).getMethod "digest" (dictOf []) = .ok (.dict digest') :=
    PyValue.getMethod_eq_ok.mpr ⟨_, rfl, by rw [hdigest]; rfl⟩
  have hexp : (PyValue.dict digest').getMethod "digest" .none = .ok (.str text') :=
    PyValue.getMethod_eq_ok.mpr ⟨_, rfl, by rw [htext]; rfl⟩
  have htruthy : truthy (.str text') = true := by simpa [truthy] using hne
  rw [linked, hsup]
  simp only [bind, Except.bind, PyValue.isDict, hdig, hexp, htruthy]
  cases dumps previous with
  | ok data =>
      show Except.ok ((PyValue.str (ofChars (b64url (P.sha256 data)))).pyEq (.str text')) = _ ↔ _
      rw [Except.ok.injEq, PyValue.pyEq_str_iff, PyValue.str.injEq]
      simp [b64url, Corrlog.b64url, eq_comm]
  | error e => simp

/-- Every other record names the one before it, and the independent verifier leaves out
that it names its identifier. -/
theorem linked_some_iff (hdumps : ImplementsSafe dumps) {previous record : PyValue}
    (hp : IsStrict P publicKey previous) (hwfp : previous.WF) (hsafe : safeInts previous = true)
    (hs : IsStrict P publicKey record) (hwf : record.WF) :
    Corrlog.linked P (some previous) record = .ok true ↔
      Names previous record ∧ linked P dumps (some previous) record = .ok true := by
  obtain ⟨pitems, _, _, _, _, _, rfl, hp⟩ := hp
  obtain ⟨items, _, _, _, _, _, rfl, hs⟩ := hs
  obtain ⟨hid, hid'⟩ := recordId_eq hp.toShape
  have hbytes {data : Bytes} :
      dumps (.dict pitems) = .ok data ↔ canonicalJson (.dict pitems) = .ok data := by
    rw [dumps_iff hdumps hwfp, and_iff_right hsafe]
  rw [linked_some P hid, Names, hid']
  constructor
  · rintro ⟨sup, digest, data, hsup, hdata, heq⟩
    exact ⟨⟨items, sup, digest, _, rfl, hsup, heq⟩,
      (linked_iff hs.accepted hwf hsup heq).mpr ⟨data, hbytes.mpr hdata, rfl⟩⟩
  · rintro ⟨⟨_, sup, digest, _, he, hsup, heq⟩, h⟩
    cases he
    obtain ⟨data, hdata, rfl⟩ := (linked_iff hs.accepted hwf hsup heq).mp h
    exact ⟨sup, digest, data, hsup, hbytes.mp hdata, heq⟩

/-- Between strict records the links are checked alike, but for the identifier. -/
theorem after_iff (hdumps : ImplementsSafe dumps) {previous : Option PyValue} {record : PyValue}
    (hp : ∀ p ∈ previous, IsStrict P publicKey p ∧ p.WF ∧ safeInts p = true)
    (hs : IsStrict P publicKey record) (hwf : record.WF) :
    (rules P publicKey).after previous record ↔
      (strictRules P publicKey).after previous record ∧
        linked P dumps previous record = .ok true := by
  cases previous with
  | none => exact (linked_none_iff hs).trans (and_iff_right trivial).symm
  | some p =>
      obtain ⟨hp, hwfp, hsafe⟩ := hp p rfl
      exact linked_some_iff hdumps hp hwfp hsafe hs hwf

theorem chainLoop_cons {previous : Option PyValue} {r : PyValue} {records : List PyValue} :
    chainLoop P dumps publicKey previous (r :: records) = .ok true ↔
      verifyRecord P dumps r publicKey = .ok true ∧ linked P dumps previous r = .ok true ∧
        chainLoop P dumps publicKey (some r) records = .ok true := by
  rw [chainLoop]
  cases verifyRecord P dumps r publicKey with
  | error e => simp [bind, Except.bind]
  | ok b =>
      cases b with
      | false => simp [bind, Except.bind, pure, Except.pure]
      | true =>
          cases linked P dumps previous r with
          | error e => simp [bind, Except.bind]
          | ok b => cases b <;> simp [bind, Except.bind, pure, Except.pure]

/-- The loop of the independent verifier, on records that are strict and name each other. -/
theorem chainLoop_iff (hdumps : ImplementsSafe dumps) {previous : Option PyValue}
    {seen : List PyStr} {records : List PyValue}
    (hp : ∀ p ∈ previous, IsStrict P publicKey p ∧ p.WF ∧ safeInts p = true)
    (hwf : ∀ r ∈ records, r.WF) :
    Continues (rules P publicKey) previous seen records ∧ (∀ r ∈ records, safeInts r = true) ↔
      Continues (strictRules P publicKey) previous seen records ∧
        chainLoop P dumps publicKey previous records = .ok true := by
  induction records generalizing previous seen with
  | nil => simp [Continues, chainLoop]
  | cons r records ih =>
      obtain ⟨hr, hwf⟩ := List.forall_mem_cons.mp hwf
      have hrecord : verify P r publicKey = true ∧ safeInts r = true ↔
          IsStrict P publicKey r ∧ verifyRecord P dumps r publicKey = .ok true :=
        verify_and_safeInts hdumps hr
      rw [Continues, Continues, List.forall_mem_cons, chainLoop_cons]
      constructor
      · rintro ⟨⟨hok, hid, hafter, hrest⟩, hsafe, hsafes⟩
        obtain ⟨hs, hver⟩ := hrecord.mp ⟨hok, hsafe⟩
        obtain ⟨hafter, hlinked⟩ := (after_iff hdumps hp hs hr).mp hafter
        have hprev : ∀ p ∈ some r, IsStrict P publicKey p ∧ p.WF ∧ safeInts p = true :=
          fun p hp => Option.some.inj hp ▸ ⟨hs, hr, hsafe⟩
        obtain ⟨hrest, hloop⟩ := (ih hprev hwf).mp ⟨hrest, hsafes⟩
        exact ⟨⟨hs, hid, hafter, hrest⟩, hver, hlinked, hloop⟩
      · rintro ⟨⟨hs, hid, hafter, hrest⟩, hver, hlinked, hloop⟩
        obtain ⟨hok, hsafe⟩ := hrecord.mpr ⟨hs, hver⟩
        have hafter := (after_iff hdumps hp hs hr).mpr ⟨hafter, hlinked⟩
        have hprev : ∀ p ∈ some r, IsStrict P publicKey p ∧ p.WF ∧ safeInts p = true :=
          fun p hp => Option.some.inj hp ▸ ⟨hs, hr, hsafe⟩
        obtain ⟨hrest, hsafes⟩ := (ih hprev hwf).mpr ⟨hrest, hloop⟩
        exact ⟨⟨hok, hid, hafter, hrest⟩, hsafe, hsafes⟩

theorem verifyChain_and_safeInts (hdumps : ImplementsSafe dumps) {records : List PyValue}
    (hwf : ∀ r ∈ records, r.WF) :
    Corrlog.verifyChain P (.list records) publicKey .none = true ∧
        safeInts (.list records) = true ↔
      History (strictRules P publicKey) records ∧
        verifyChain P dumps records publicKey = .ok true := by
  have hloop : Continues (rules P publicKey) none [] records ∧
        (∀ r ∈ records, safeInts r = true) ↔
      Continues (strictRules P publicKey) none [] records ∧
        chainLoop P dumps publicKey none records = .ok true :=
    chainLoop_iff hdumps (fun _ hp => by cases hp) hwf
  have hcheck : matchesCheckpoint P records publicKey .none = .ok true := rfl
  rw [verifyChain_iff, and_iff_left hcheck, Linear.history_iff, Linear.history_iff, and_assoc,
    and_assoc, verifyChain, ← hloop, safeInts, safeIntsList_iff]

end

/-- With an `rfc8785.dumps` that takes integers below `2 ** 53` only, the core accepts a
record without larger ones exactly if it is strict and the independent verifier accepts
it, and likewise a chain, if its records are strict and name each other. -/
theorem independent_verifier {P : Platform} {dumps : PyValue → Except PyErr Bytes}
    (hdumps : ImplementsSafe dumps) (publicKey : Option P.PublicKey) :
    (∀ record : PyObject,
      verify P record.val publicKey = true ∧ safeInts record.val = true ↔
        IsStrict P publicKey record.val ∧
          verifyRecord P dumps record.val publicKey = .ok true) ∧
    ∀ records : List PyValue, (PyValue.list records).WF →
      (Corrlog.verifyChain P (.list records) publicKey .none = true ∧
          safeInts (.list records) = true ↔
        History (strictRules P publicKey) records ∧
          verifyChain P dumps records publicKey = .ok true) :=
  ⟨fun record => verify_and_safeInts hdumps record.wf,
    fun records hwf => verifyChain_and_safeInts hdumps ((PyValue.wf_list records).mp hwf)⟩

theorem independent_verifier_vectors :
    verifyChain Vector.platform safeJson [Vector.action, Vector.correction]
      (some Vector.publicKey) = .ok true := by
  have hwf : (PyValue.list [Vector.action, Vector.correction]).WF := by
    rw [PyValue.wf_list]
    simp [Vector.action_wf, Vector.correction_wf]
  have hsafe : safeInts (.list [Vector.action, Vector.correction]) = true := by decide +kernel
  exact (((independent_verifier implements_safeJson _).2 _ hwf).mp
    ⟨Vector.verifyChain_vectors, hsafe⟩).2

end Corrlog.Independent
