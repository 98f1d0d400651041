import Corrlog.Rfc8785.Text
import Corrlog.Standalone.Verify

/-!
# The two verifiers agree

The standalone verifier makes its canonical bytes in another way, and they are
the core's (`canonicalBytes_iff`).  It finds the same signature in a record
(`verifyRecord_iff`), the same fault in a link and the same checkpoint.  Hence it
accepts the records and the chains that the core accepts (`verifiers_agree`).
-/

namespace Corrlog.Standalone

open Python
open Binary64 (ofInt)
open JsonSchema (valid)
open Linear (Continues)
open Rfc8785 (Implements Text allFloats allFloatsList_iff allFloatsItems_iff text_iff_jcsRender
  implements_canonicalJson)

/-! ## Canonical bytes -/

theorem toDoubleList_eq_ok {xs ys : List PyValue} :
    toDoubleList xs = .ok ys ↔ List.Forall₂ (fun x y => toDoubleDomain x = .ok y) xs ys := by
  induction xs generalizing ys with
  | nil =>
      rw [toDoubleList, List.forall₂_nil_left_iff, Except.ok.injEq, eq_comm]
  | cons x xs ih =>
      rw [toDoubleList, List.forall₂_cons_left_iff]
      constructor
      · intro h
        obtain ⟨y, hy, h⟩ := bind_eq_ok.mp h
        obtain ⟨ys, hys, h⟩ := bind_eq_ok.mp h
        cases h
        exact ⟨y, ys, hy, ih.mp hys, rfl⟩
      · rintro ⟨y, ys, hy, hys, rfl⟩
        exact bind_eq_ok.mpr ⟨y, hy, bind_eq_ok.mpr ⟨ys, ih.mpr hys, rfl⟩⟩

theorem toDoubleItems_eq_ok {items items' : Items} :
    toDoubleItems items = .ok items' ↔
      List.Forall₂ (fun kv kw => kv.1 = kw.1 ∧ toDoubleDomain kv.2 = .ok kw.2) items items' := by
  induction items generalizing items' with
  | nil =>
      rw [toDoubleItems, List.forall₂_nil_left_iff, Except.ok.injEq, eq_comm]
  | cons kv items ih =>
      obtain ⟨k, v⟩ := kv
      rw [toDoubleItems, List.forall₂_cons_left_iff]
      constructor
      · intro h
        obtain ⟨w, hw, h⟩ := bind_eq_ok.mp h
        obtain ⟨items', hi, h⟩ := bind_eq_ok.mp h
        cases h
        exact ⟨(k, w), items', ⟨rfl, hw⟩, ih.mp hi, rfl⟩
      · rintro ⟨⟨_, w⟩, items', ⟨rfl, hw⟩, hi, rfl⟩
        exact bind_eq_ok.mpr ⟨w, hw, bind_eq_ok.mpr ⟨items', ih.mpr hi, rfl⟩⟩

/-- What the rewriting of numbers keeps: the core renders both values alike. -/
structure Doubled (v w : PyValue) : Prop where
  allFloats : allFloats w = true
  wf : v.WF → w.WF
  render : jcsRender w = jcsRender v

/-- A list of doubled elements is doubled. -/
theorem doubled_seq {v : PyValue} {xs ys : List PyValue} (hv : PyValue.seq? v = some xs)
    (h : List.Forall₂ Doubled xs ys) : Doubled v (.list ys) where
  allFloats := (allFloatsList_iff ys).mpr fun _ hy =>
    let ⟨_, _, hxy⟩ := PyValue.exists_left_of_forall₂ h hy
    hxy.allFloats
  wf hwf := (PyValue.wf_list ys).mpr fun _ hy =>
    let ⟨x, hx, hxy⟩ := PyValue.exists_left_of_forall₂ h hy
    hxy.wf (PyValue.wf_of_seq hwf hv x hx)
  render := by
    rw [jcsRender_seq hv, jcsRender_seq (v := .list ys) rfl,
      jcsRenderList_congr (h.imp fun _ _ hxy => hxy.render.symm)]

theorem doubled_dict {items items' : Items}
    (h : List.Forall₂ (fun kv kw => kv.1 = kw.1 ∧ Doubled kv.2 kw.2) items items') :
    Doubled (.dict items) (.dict items') where
  allFloats := (allFloatsItems_iff items').mpr fun _ hkw =>
    let ⟨_, _, hkv⟩ := PyValue.exists_left_of_forall₂ h hkw
    hkv.2.allFloats
  wf hwf := by
    rw [PyValue.wf_dict] at hwf ⊢
    have hkeys : items.map Prod.fst = items'.map Prod.fst := by
      rw [← List.forall₂_eq_eq_eq, List.forall₂_map_left_iff, List.forall₂_map_right_iff]
      exact h.imp fun _ _ hkv => hkv.1
    refine ⟨hkeys ▸ hwf.1, fun kw hkw => ?_⟩
    obtain ⟨kv, hkv, hd⟩ := PyValue.exists_left_of_forall₂ h hkw
    exact hd.2.wf (hwf.2 kv hkv)
  render := by
    have hitems : jcsRenderItems items' = jcsRenderItems items := by
      induction h with
      | nil => rfl
      | cons hkv _ ih => rw [jcsRenderItems, jcsRenderItems, ih, hkv.1, hkv.2.render]
    rw [jcsRender, jcsRender, hitems]

/-- What the function returns is doubled, by induction on the value. -/
theorem doubled_of_toDoubleDomain {v w : PyValue} (h : toDoubleDomain v = .ok w) : Doubled v w := by
  induction v generalizing w with
  | none => cases h; exact ⟨rfl, id, rfl⟩
  | bool b => cases h; exact ⟨rfl, id, rfl⟩
  | int n =>
      rw [toDoubleDomain] at h
      split at h
      next hf =>
        cases h
        exact ⟨rfl, fun _ => rfl, by rw [jcsRender, jcsRender, jcsNumber, jcsNumber, jcsInteger,
          if_pos hf]⟩
      next => cases h
  | float x => cases h; exact ⟨rfl, id, rfl⟩
  | str s => cases h; exact ⟨rfl, id, rfl⟩
  | list xs ih =>
      rw [toDoubleDomain] at h
      obtain ⟨ys, hys, rfl⟩ := map_eq_ok.mp h
      exact doubled_seq rfl (PyValue.forall₂_imp_of_mem (toDoubleList_eq_ok.mp hys)
        fun x hx _ _ hxy => ih x hx hxy)
  | tuple xs ih =>
      rw [toDoubleDomain] at h
      obtain ⟨ys, hys, rfl⟩ := map_eq_ok.mp h
      exact doubled_seq rfl (PyValue.forall₂_imp_of_mem (toDoubleList_eq_ok.mp hys)
        fun x hx _ _ hxy => ih x hx hxy)
  | dict items ih =>
      rw [toDoubleDomain] at h
      obtain ⟨items', hi, rfl⟩ := map_eq_ok.mp h
      exact doubled_dict (PyValue.forall₂_imp_of_mem (toDoubleItems_eq_ok.mp hi)
        fun kv hkv _ _ hd => ⟨hd.1, ih kv hkv hd.2⟩)
  | other o => cases h; exact ⟨rfl, id, rfl⟩

theorem exists_forall₂ {α β : Type} {R : α → β → Prop} {l : List α} (h : ∀ a ∈ l, ∃ b, R a b) :
    ∃ l', List.Forall₂ R l l' := by
  induction l with
  | nil => exact ⟨[], .nil⟩
  | cons a l ih =>
      obtain ⟨⟨b, hb⟩, h⟩ := List.forall_mem_cons.mp h
      obtain ⟨l', hl'⟩ := ih h
      exact ⟨b :: l', .cons hb hl'⟩

/-- Only an integer out of range is refused. -/
theorem exists_toDoubleDomain {v : PyValue} (hj : v.JsonAble) : ∃ w, toDoubleDomain v = .ok w := by
  induction v with
  | none => exact ⟨_, rfl⟩
  | bool b => exact ⟨_, rfl⟩
  | int n => exact ⟨_, by rw [toDoubleDomain, if_pos ((PyValue.jsonAble_int n).mp hj)]⟩
  | float x => exact ⟨_, rfl⟩
  | str s => exact ⟨_, rfl⟩
  | list xs ih =>
      rw [PyValue.jsonAble_list] at hj
      obtain ⟨ys, hys⟩ := exists_forall₂ fun x hx => ih x hx (hj x hx)
      exact ⟨.list ys, by rw [toDoubleDomain, toDoubleList_eq_ok.mpr hys]; rfl⟩
  | tuple xs ih =>
      rw [PyValue.jsonAble_tuple] at hj
      obtain ⟨ys, hys⟩ := exists_forall₂ fun x hx => ih x hx (hj x hx)
      exact ⟨.list ys, by rw [toDoubleDomain, toDoubleList_eq_ok.mpr hys]; rfl⟩
  | dict items ih =>
      rw [PyValue.jsonAble_dict] at hj
      have hex : ∀ kv ∈ items, ∃ kw : PyKey × PyValue,
          kv.1 = kw.1 ∧ toDoubleDomain kv.2 = .ok kw.2 := fun kv hkv =>
        let ⟨w, hw⟩ := ih kv hkv (hj kv hkv).2
        ⟨(kv.1, w), rfl, hw⟩
      obtain ⟨items', hi⟩ := exists_forall₂ hex
      exact ⟨.dict items', by rw [toDoubleDomain, toDoubleItems_eq_ok.mpr hi]; rfl⟩
  | other o => exact ⟨_, rfl⟩

section

variable {dumps : PyValue → Except PyErr Bytes} (hdumps : Implements dumps)

include hdumps

/-- Both verifiers make the same canonical bytes. -/
theorem canonicalBytes_iff {v : PyValue} (hwf : v.WF) {b : Bytes} :
    canonicalBytes dumps v = .ok b ↔ canonicalJson v = .ok b := by
  have hiff {w : PyValue} (hw : toDoubleDomain v = .ok w) :
      dumps w = .ok b ↔ canonicalJson v = .ok b := by
    have hd := doubled_of_toDoubleDomain hw
    rw [hdumps w (hd.wf hwf) hd.allFloats, canonicalJson_ok_iff]
    simp only [text_iff_jcsRender (hd.wf hwf) hd.allFloats, hd.render]
  rw [canonicalBytes, bind_eq_ok]
  constructor
  · rintro ⟨w, hw, hb⟩
    exact (hiff hw).mp hb
  · intro hb
    obtain ⟨w, hw⟩ := exists_toDoubleDomain ((jsonAble_iff_canonicalJson hwf).mpr ⟨b, hb⟩)
    exact ⟨w, hw, (hiff hw).mpr hb⟩

/-! ## Records -/

omit hdumps in
/-- The decoder takes only what the encoder writes. -/
theorem b64urlDecode_eq_ok {value : PyValue} {size : ℕ} {raw : Bytes} :
    b64urlDecode value (some size) = .ok raw ↔
      raw.length = size ∧ value = .str (ofChars (b64url raw)) := by
  rw [← decodeExact_eq_ok]
  cases value with
  | str s =>
      rw [b64urlDecode, decodeExact, bind_eq_ok, bind_eq_ok]
      refine exists_congr fun data => and_congr_right fun _ => ?_
      have hor : (ofChars (unpadded data) ≠ s ∨ (some size).any (data.length ≠ ·)) ↔
          (data.length ≠ size ∨ ofChars (b64url data) ≠ s) := by
        rw [or_comm, Option.any_some, decide_eq_true_eq]
        rfl
      by_cases h : data.length ≠ size ∨ ofChars (b64url data) ≠ s
      · rw [if_pos (hor.mpr h), if_pos h]
        exact iff_of_false (fun h => by cases h) (fun h => by cases h)
      · rw [if_neg (mt hor.mp h), if_neg h]
  | _ => exact iff_of_false (fun h => by cases h) (fun h => by cases h)

omit hdumps in
/-- A record has a JSON text if its payload has. -/
theorem jsonAble_of_payload {items sigMeta : Items} {cs : List Char}
    (hsm : getStr "signature" items = some (.dict sigMeta))
    (hsig : getStr "sig" sigMeta = some (.str (ofChars cs)))
    (hj : (PyValue.dict
      (setStr "signature" (.dict (setStr "sig" (.str []) sigMeta)) items)).JsonAble) :
    (PyValue.dict items).JsonAble := by
  have hblank := PyValue.jsonAble_of_getKey hj (getStr_setStr_self "signature" _ items)
  have hfull := PyValue.jsonAble_setStr (k := "sig")
    ((PyValue.jsonAble_str (ofChars cs)).mpr (noSurrogates_ofChars cs)) hblank
  rw [setStr_setStr, setStr_of_getStr hsig] at hfull
  have h := PyValue.jsonAble_setStr (k := "signature") hfull hj
  rwa [setStr_setStr, setStr_of_getStr hsm] at h

variable {P : Platform}

/-- The signature is checked as in the core. -/
theorem checkSignature_eq_true {items : Items} (hwf : (PyValue.dict items).WF)
    {id : PyStr} {agent sigMeta : Items} (hs : Shape items id agent sigMeta) {k : P.PublicKey}
    {reason reason' : String} :
    checkSignature P dumps (.dict items) (.dict sigMeta) k reason = .ok (true, reason') ↔
      reason = reason' ∧ ∃ sig data, sig.length = 64 ∧
        getStr "sig" sigMeta = some (.str (ofChars (b64url sig))) ∧
        (payload (.dict items) >>= canonicalJson) = .ok data ∧ P.verify k sig data = true := by
  have hpay := payload_wf hwf hs.sigMeta_eq
  rw [payload_eq hs]
  constructor
  · intro h
    obtain ⟨_, hblank, h⟩ := bind_eq_ok.mp h
    cases hblank
    obtain ⟨_, hp, h⟩ := bind_eq_ok.mp h
    cases hp
    obtain ⟨sigText, hsig, h⟩ := bind_eq_ok.mp h
    obtain ⟨_, he, hsig⟩ := PyValue.getItem_eq_ok.mp hsig
    cases he
    obtain ⟨sig, hdec, h⟩ := bind_eq_ok.mp h
    obtain ⟨hlen, htext⟩ := b64urlDecode_eq_ok.mp hdec
    rw [htext] at hsig
    obtain ⟨data, hdata, h⟩ := bind_eq_ok.mp h
    rw [canonicalBytes_iff hdumps hpay] at hdata
    split at h
    next hver =>
      cases h
      exact ⟨rfl, sig, data, hlen, hsig, hdata, hver⟩
    next => cases h
  · rintro ⟨rfl, sig, data, hlen, hsig, hdata, hver⟩
    refine bind_eq_ok.mpr ⟨_, rfl, bind_eq_ok.mpr ⟨_, rfl, bind_eq_ok.mpr ⟨_,
      PyValue.getItem_eq_ok.mpr ⟨_, rfl, hsig⟩, bind_eq_ok.mpr ⟨sig,
        b64urlDecode_eq_ok.mpr ⟨hlen, rfl⟩, bind_eq_ok.mpr ⟨data,
          (canonicalBytes_iff hdumps hpay).mpr hdata, ?_⟩⟩⟩⟩⟩
    rw [if_pos hver]
    rfl

/-- What the verifier accepts is verified, in the sense of the core. -/
theorem verifyRecordBody_eq_true {record : PyValue} (hwf : record.WF)
    {pinnedPub : Option P.PublicKey} {reason : String}
    (h : verifyRecordBody P dumps record pinnedPub = .ok (true, reason)) :
    ∃ items id agent sigMeta k sig data, record = .dict items ∧
      Verified P items id agent sigMeta k sig data ∧ ∀ k' ∈ pinnedPub, k' = k := by
  rw [verifyRecordBody] at h
  split at h
  next hvalid =>
    obtain ⟨items, id, agent, sigMeta, rfl, hs⟩ := acrV1_shape hvalid
    obtain ⟨sm, hsm, h⟩ := bind_eq_ok.mp h
    rw [PyValue.getItem, hs.sigMeta_eq] at hsm
    cases hsm
    obtain ⟨encoded, henc, h⟩ := bind_eq_ok.mp h
    obtain ⟨_, he, henc⟩ := PyValue.getItem_eq_ok.mp henc
    cases he
    obtain ⟨raw, hraw, h⟩ := bind_eq_ok.mp h
    obtain ⟨_, htext⟩ := b64urlDecode_eq_ok.mp hraw
    obtain ⟨ag, hag, h⟩ := bind_eq_ok.mp h
    rw [PyValue.getItem, hs.agent_eq] at hag
    cases hag
    obtain ⟨agentKey, hagk, h⟩ := bind_eq_ok.mp h
    cases hagk
    split at h
    next => cases h
    next hagent =>
      -- the signer, pinned or embedded
      obtain ⟨k, hk, hpin, hcheck⟩ : ∃ k, P.publicBytes k = raw ∧ (∀ k' ∈ pinnedPub, k' = k) ∧
          ∃ reason', checkSignature P dumps (.dict items) (.dict sigMeta) k reason' =
            .ok (true, reason) := by
        cases pinnedPub with
        | some k =>
            dsimp only at h
            split at h
            next => cases h
            next hk => exact ⟨k, not_not.mp hk, fun _ hk' => (Option.some.inj hk').symm, _, h⟩
        | none =>
            dsimp only at h
            cases hk : P.fromPublicBytes raw with
            | none => rw [hk] at h; cases h
            | some k =>
                rw [hk] at h
                exact ⟨k, (P.fromPublicBytes_iff _ _).mp hk, (by intro _ hk'; cases hk'), _, h⟩
      obtain ⟨_, hcheck⟩ := hcheck
      obtain ⟨_, sig, data, hlen, hsig, hdata, hver⟩ :=
        (checkSignature_eq_true hdumps hwf hs).mp hcheck
      subst hk htext
      have hpay := hdata
      rw [payload_eq hs] at hpay
      have hj := jsonAble_of_payload hs.sigMeta_eq hsig
        ((jsonAble_iff_canonicalJson (payload_wf hwf hs.sigMeta_eq)).mpr ⟨data, hpay⟩)
      refine ⟨items, id, agent, sigMeta, k, sig, data, rfl, ⟨hs, ?_, henc, fun w hw => ?_, hlen,
        hsig, hdata, hver⟩, hpin⟩
      · exact (validateRecord_eq_ok P).mpr ⟨hvalid, (jsonAble_iff_canonicalJson hwf).mp hj⟩
      · rw [hw, Option.getD_some, Bool.not_eq_true', Bool.not_eq_false] at hagent
        exact PyValue.pyEq_str_iff.mp hagent
  next => cases h

/-- The verifier accepts whatever is verified in the sense of the core. -/
theorem verifyRecordBody_of_verified {items : Items} (hwf : (PyValue.dict items).WF) {id : PyStr}
    {agent sigMeta : Items} {k : P.PublicKey} {sig data : Bytes}
    (h : Verified P items id agent sigMeta k sig data) {pinnedPub : Option P.PublicKey}
    (hpin : ∀ k' ∈ pinnedPub, k' = k) :
    ∃ reason, verifyRecordBody P dumps (.dict items) pinnedPub = .ok (true, reason) := by
  have hvalid := ((validateRecord_eq_ok P).mp h.accepted).1
  have hsm : (PyValue.dict items).getItem "signature" = .ok (.dict sigMeta) :=
    PyValue.getItem_eq_ok.mpr ⟨_, rfl, h.sigMeta_eq⟩
  have henc : (PyValue.dict sigMeta).getItem "publicKey" = .ok _ :=
    PyValue.getItem_eq_ok.mpr ⟨_, rfl, h.key_eq⟩
  have hraw : b64urlDecode _ (some 32) = .ok (P.publicBytes k) :=
    b64urlDecode_eq_ok.mpr ⟨P.length_publicBytes k, rfl⟩
  have hag : (PyValue.dict items).getItem "agent" = .ok (.dict agent) :=
    PyValue.getItem_eq_ok.mpr ⟨_, rfl, h.agent_eq⟩
  have hmethod (d : PyValue) : (PyValue.dict agent).getMethod "publicKey" d =
      .ok ((getStr "publicKey" agent).getD d) := rfl
  have hagent : (((getStr "publicKey" agent).getD (.str (ofChars (publicKeyB64url P k)))).pyEq
      (.str (ofChars (publicKeyB64url P k)))) = true := by
    rw [PyValue.pyEq_str_iff]
    cases hw : getStr "publicKey" agent with
    | none => rfl
    | some w => exact h.agentKey_eq w hw
  have hcheck (reason : String) :
      checkSignature P dumps (.dict items) (.dict sigMeta) k reason = .ok (true, reason) :=
    (checkSignature_eq_true hdumps hwf h.toShape).mpr
      ⟨rfl, sig, data, h.length_sig, h.sig_eq, h.data_eq, h.signed⟩
  rw [verifyRecordBody, if_pos hvalid]
  cases pinnedPub with
  | some k' =>
      cases hpin k' rfl
      refine ⟨"valid under pinned key", bind_eq_ok.mpr ⟨_, hsm, bind_eq_ok.mpr ⟨_, henc,
        bind_eq_ok.mpr ⟨_, hraw, bind_eq_ok.mpr ⟨_, hag, bind_eq_ok.mpr ⟨_, hmethod _, ?_⟩⟩⟩⟩⟩⟩
      rw [hagent, if_neg (by decide)]
      exact (if_neg (not_not.mpr rfl)).trans (hcheck _)
  | none =>
      refine ⟨"signature consistency only; signer untrusted", bind_eq_ok.mpr ⟨_, hsm,
        bind_eq_ok.mpr ⟨_, henc, bind_eq_ok.mpr ⟨_, hraw, bind_eq_ok.mpr ⟨_, hag,
          bind_eq_ok.mpr ⟨_, hmethod _, ?_⟩⟩⟩⟩⟩⟩
      rw [hagent, if_neg (by decide), (P.fromPublicBytes_iff _ k).mpr rfl]
      exact hcheck _

/-- Both verifiers accept the same records. -/
theorem verifyRecord_iff {record : PyValue} (hwf : record.WF) {publicKey : Option P.PublicKey} :
    (verifyRecord P dumps record publicKey).1 = true ↔ verify P record publicKey = true := by
  rw [verify_iff, verifyRecord]
  constructor
  · intro h
    cases hb : verifyRecordBody P dumps record publicKey with
    | error e => rw [hb] at h; cases h
    | ok r =>
        obtain ⟨b, reason⟩ := r
        rw [hb] at h
        cases h
        exact verifyRecordBody_eq_true hdumps hwf hb
  · rintro ⟨items, id, agent, sigMeta, k, sig, data, rfl, hver, hk⟩
    obtain ⟨reason, hb⟩ := verifyRecordBody_of_verified hdumps hwf hver hk
    rw [hb]

/-! ## Chains -/

/-- The two compute the same digests. -/
theorem digest_iff {v d : PyValue} (hwf : v.WF) :
    digest P dumps v = .ok d ↔
      ∃ data, canonicalJson v = .ok data ∧ (hashObject P data).getItem "digest" = .ok d := by
  rw [digest, map_eq_ok]
  simp only [canonicalBytes_iff hdumps hwf, hashObject_getItem, Except.ok.injEq]
  rfl

/-- Two records are linked for both or for neither. -/
theorem linkFault_iff {previous : Option PyValue} {record : PyValue}
    (hp : ∀ p ∈ previous, p.WF) :
    linkFault P dumps previous record = .ok none ↔ linked P previous record = .ok true := by
  cases previous with
  | none =>
      rw [linkFault, linked, map_eq_ok, map_eq_ok]
      refine exists_congr fun b => and_congr_right fun _ => ?_
      cases b <;> decide
  | some p =>
      rw [linkFault, linked, bind_eq_ok, bind_eq_ok]
      refine exists_congr fun sup => and_congr_right fun _ => ?_
      rw [bind_eq_ok, bind_eq_ok]
      refine exists_congr fun receiptId => and_congr_right fun _ => ?_
      rw [bind_eq_ok, bind_eq_ok]
      refine exists_congr fun id => and_congr_right fun _ => ?_
      cases receiptId.pyEq id with
      | false => exact iff_of_false (fun h => by cases h) (fun h => by cases h)
      | true =>
          rw [if_neg (by decide), if_pos rfl, bind_eq_ok, bind_eq_ok]
          refine exists_congr fun supDigest => and_congr_right fun _ => ?_
          rw [bind_eq_ok, bind_eq_ok]
          simp only [digest_iff hdumps (hp p rfl), hashObject_getItem, Except.ok.injEq]
          constructor
          · rintro ⟨_, ⟨data, hdata, rfl⟩, h⟩
            refine ⟨data, hdata, ?_⟩
            rw [hashObject]
            split at h
            next => cases h
            next heq => rw [Bool.not_eq_true', Bool.not_eq_false] at heq; rw [heq]; rfl
          · rintro ⟨data, hdata, h⟩
            refine ⟨_, ⟨data, hdata, rfl⟩, ?_⟩
            rw [← hashObject, if_neg]
            · rfl
            · rw [show supDigest.pyEq (hashObject P data) = true from Except.ok.inj h]
              decide

/-- The two accept the same lists, by induction on the list. -/
theorem chainFault_iff {publicKey : Option P.PublicKey} {previous : Option PyValue}
    {seen records : List PyValue} (hp : ∀ p ∈ previous, p.WF) (hr : ∀ r ∈ records, r.WF) :
    chainFault P dumps publicKey previous seen records = .ok none ↔
      chainLoop P publicKey previous seen records = .ok true := by
  induction records generalizing previous seen with
  | nil => exact iff_of_true rfl rfl
  | cons rec records ih =>
      obtain ⟨hrec, hrs⟩ := List.forall_mem_cons.mp hr
      rw [chainFault, chainLoop]
      have hver := @verifyRecord_iff _ hdumps P rec hrec publicKey
      generalize verifyRecord P dumps rec publicKey = r at hver
      obtain ⟨b, reason⟩ := r
      cases b with
      | false =>
          rw [if_neg (mt hver.mpr Bool.false_ne_true)]
          exact iff_of_false (fun h => by cases h) (fun h => by cases h)
      | true =>
          rw [if_pos (hver.mp rfl)]
          dsimp only
          rw [bind_eq_ok, bind_eq_ok]
          refine exists_congr fun id => and_congr_right fun _ => ?_
          cases seen.any id.pyEq with
          | true => exact iff_of_false (fun h => by cases h) (fun h => by cases h)
          | false =>
              rw [if_neg (by decide), if_neg (by decide), bind_eq_ok, bind_eq_ok]
              have hlink := @linkFault_iff _ hdumps P previous rec hp
              have ih := @ih (some rec) (id :: seen) (fun p hp => Option.some.inj hp ▸ hrec) hrs
              constructor
              · rintro ⟨fault, hf, h⟩
                cases fault with
                | none => exact ⟨true, hlink.mp hf, ih.mp h⟩
                | some reason => cases h
              · rintro ⟨ok, hok, h⟩
                cases ok with
                | true => exact ⟨none, hlink.mpr hok, ih.mpr h⟩
                | false => cases h

/-- Both verifiers compare a checkpoint with the same dict. -/
theorem expectedFault_iff {records : List PyValue} {checkpoint : PyValue}
    (hr : ∀ r ∈ records, r.WF) :
    expectedFault P dumps records checkpoint = .ok none ↔
      (describe P records >>= fun expected => (pure (checkpoint.pyEq expected) :
        Except PyErr Bool)) = .ok true := by
  rw [expectedFault, describe]
  cases hfirst : records.head? with
  | none => exact iff_of_false (fun h => by cases h) (fun h => by cases h)
  | some first =>
      cases hlast : records.getLast? with
      | none => exact iff_of_false (fun h => by cases h) (fun h => by cases h)
      | some last =>
          have hf := hr first (List.mem_of_head? hfirst)
          have hl := hr last (List.mem_of_getLast? hlast)
          dsimp only
          constructor
          · intro h
            obtain ⟨genesis, hgenesis, h⟩ := bind_eq_ok.mp h
            obtain ⟨head, hhead, h⟩ := bind_eq_ok.mp h
            obtain ⟨_, hdf, hg⟩ := (digest_iff hdumps hf).mp hgenesis
            obtain ⟨_, hdl, hh⟩ := (digest_iff hdumps hl).mp hhead
            refine bind_eq_ok.mpr ⟨_, bind_eq_ok.mpr ⟨genesis, bind_eq_ok.mpr ⟨_, hdf, hg⟩,
              bind_eq_ok.mpr ⟨head, bind_eq_ok.mpr ⟨_, hdl, hh⟩, rfl⟩⟩, ?_⟩
            split at h
            next => cases h
            next heq =>
              rw [Bool.not_eq_true', Bool.not_eq_false] at heq
              rw [heq]
              rfl
          · intro h
            obtain ⟨expected, hexpected, h⟩ := bind_eq_ok.mp h
            obtain ⟨genesis, hgenesis, hexpected⟩ := bind_eq_ok.mp hexpected
            obtain ⟨head, hhead, hexpected⟩ := bind_eq_ok.mp hexpected
            have hg := (digest_iff hdumps hf).mpr (bind_eq_ok.mp hgenesis)
            have hh := (digest_iff hdumps hl).mpr (bind_eq_ok.mp hhead)
            cases hexpected
            refine bind_eq_ok.mpr ⟨genesis, hg, bind_eq_ok.mpr ⟨head, hh, ?_⟩⟩
            rw [Except.ok.inj h, if_neg (by decide)]
            rfl

/-- The two compare the same with a checkpoint. -/
theorem checkpointFault_iff {publicKey : Option P.PublicKey} {records : List PyValue}
    {checkpoint : PyValue} (hr : ∀ r ∈ records, r.WF) :
    checkpointFault P dumps records publicKey checkpoint = .ok none ↔
      matchesCheckpoint P records publicKey checkpoint = .ok true := by
  cases checkpoint with
  | none => exact iff_of_true rfl rfl
  | dict items =>
      rw [checkpointFault, matchesCheckpoint]
      · cases publicKey with
        | none => exact iff_of_false (fun h => by cases h) (fun h => by cases h)
        | some k =>
            simp only [Option.isNone_some, PyValue.isDict, Bool.not_true, Bool.or_self,
              Bool.false_eq_true, if_false]
            rw [bind_eq_ok, bind_eq_ok]
            refine exists_congr fun length => and_congr_right fun _ => ?_
            cases isInt length with
            | false => exact iff_of_false (fun h => by cases h) (fun h => by cases h)
            | true =>
                rw [if_neg (by decide), if_pos rfl]
                exact expectedFault_iff hdumps hr
      all_goals exact fun h => by cases h
  | _ => cases publicKey <;> exact iff_of_false (fun h => by cases h) (fun h => by cases h)

/-- Both verifiers accept the same chains. -/
theorem verifyChain_iff {records : PyValue} (hwf : records.WF) {publicKey : Option P.PublicKey}
    {checkpoint : PyValue} :
    (verifyChain P dumps records publicKey checkpoint).1 = true ↔
      Corrlog.verifyChain P records publicKey checkpoint = true := by
  have hbody : verifyChainBody P dumps records publicKey checkpoint = .ok none ↔
      Corrlog.verifyChainBody P records publicKey checkpoint = .ok true := by
    by_cases hlist : ∃ rec rs, records = .list (rec :: rs)
    · obtain ⟨rec, rs, rfl⟩ := hlist
      rw [PyValue.wf_list] at hwf
      have hchain := @chainFault_iff _ hdumps P publicKey none [] (rec :: rs)
        (fun _ hp => by cases hp) hwf
      have hcheck := @checkpointFault_iff _ hdumps P publicKey (rec :: rs) checkpoint hwf
      rw [verifyChainBody, Corrlog.verifyChainBody, bind_eq_ok, bind_eq_ok]
      constructor
      · rintro ⟨fault, hf, h⟩
        cases fault with
        | none => exact ⟨true, hchain.mp hf, hcheck.mp h⟩
        | some reason => cases h
      · rintro ⟨ok, hok, h⟩
        cases ok with
        | true => exact ⟨none, hchain.mpr hok, hcheck.mpr h⟩
        | false => cases h
    · have hne : ∀ rec rs, records ≠ .list (rec :: rs) := fun rec rs h => hlist ⟨rec, rs, h⟩
      rw [verifyChainBody.eq_2 _ _ _ _ _ hne, Corrlog.verifyChainBody.eq_2 _ _ _ _ hne]
      exact iff_of_false (fun h => by cases h) (fun h => by cases h)
  rw [verifyChain, Corrlog.verifyChain]
  constructor
  · intro h
    rw [hbody.mp ?_]
    split at h
    next hnone => exact hnone
    next => cases h
    next => cases h
  · intro h
    rw [hbody.mpr ?_]
    split at h
    next b hok => rw [hok, h]
    next => cases h

end

/-- With an implementation of RFC 8785, the standalone verifier accepts the
records and the chains that the core accepts. -/
theorem verifiers_agree {P : Platform} {dumps : PyValue → Except PyErr Bytes}
    (hdumps : Implements dumps) :
    (∀ (record : PyObject) publicKey, verify P record.val publicKey = true ↔
      (verifyRecord P dumps record.val publicKey).1 = true) ∧
    ∀ (records : PyObject) publicKey (checkpoint : PyObject),
      Corrlog.verifyChain P records.val publicKey checkpoint.val = true ↔
        (verifyChain P dumps records.val publicKey checkpoint.val).1 = true :=
  ⟨fun record _ => (verifyRecord_iff hdumps record.wf).symm,
    fun records _ _ => (verifyChain_iff hdumps records.wf).symm⟩

theorem verifiers_agree_vectors :
    (verifyRecord Vector.platform canonicalJson Vector.action (some Vector.publicKey)).1 = true :=
  ((verifiers_agree implements_canonicalJson).1 ⟨Vector.action, Vector.action_wf⟩ _).mp
    Vector.verify_action

end Corrlog.Standalone
