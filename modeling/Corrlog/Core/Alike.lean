import Corrlog.Core.Chain

/-!
# Records with the same bytes

Which of the Python values of a JSON value a record is does not matter.  It may
be replaced by any with the same canonical bytes, alone or in a list, and no
verdict and no checkpoint changes (`canonical_verdict`).
-/

namespace Corrlog

open Python
open Linear (History)

variable (P : Platform)

/-! ## Chains of records with the same bytes -/

/-- Two values with the same canonical bytes. -/
def SameBytes (v w : PyValue) : Prop := ∃ b, canonicalJson v = .ok b ∧ canonicalJson w = .ok b

/-- One value, or two with the same canonical bytes. -/
structure Alike (v w : PyValue) : Prop where
  left_wf : v.WF
  right_wf : w.WF
  eq_or : v = w ∨ SameBytes v w

theorem Alike.symm {v w : PyValue} (h : Alike v w) : Alike w v :=
  ⟨h.right_wf, h.left_wf, h.eq_or.imp Eq.symm fun ⟨b, hb, hb'⟩ => ⟨b, hb', hb⟩⟩

/-- Alike values have the same bytes. -/
theorem Alike.canonicalJson_eq {v w : PyValue} (h : Alike v w) :
    canonicalJson v = canonicalJson w := by
  rcases h.eq_or with rfl | ⟨b, hb, hb'⟩
  · rfl
  · rw [hb, hb']

/-- A record that verifies has canonical bytes. -/
theorem canonicalJson_of_verify {v : PyValue} {publicKey : Option P.PublicKey}
    (h : verify P v publicKey = true) : ∃ b, canonicalJson v = .ok b := by
  obtain ⟨_, _, _, _, _, _, _, rfl, hv, _⟩ := (verify_iff P).mp h
  exact ((validateRecord_eq_ok P).mp hv.accepted).2

theorem jsonAble_of_verify {v : PyValue} (hwf : v.WF) {publicKey : Option P.PublicKey}
    (h : verify P v publicKey = true) : v.JsonAble :=
  (jsonAble_iff_canonicalJson hwf).mpr (canonicalJson_of_verify P h)

/-- Alike records are the same JSON value if one of them verifies. -/
theorem Alike.same {v w : PyValue} (h : Alike v w) {publicKey : Option P.PublicKey}
    (hver : verify P v publicKey = true) : PyValue.Same v w := by
  rcases h.eq_or with rfl | ⟨b, hb, hb'⟩
  · exact PyValue.same_refl (jsonAble_of_verify P h.left_wf hver)
  · exact same_of_canonicalJson h.left_wf h.right_wf hb hb'

/-- What a record says of the one it supersedes is about its JSON value. -/
theorem supersedes_of_same {items items' : Items} (hv : (PyValue.dict items).WF)
    (hw : (PyValue.dict items').WF) (h : PyValue.Same (.dict items) (.dict items')) {sup : Items}
    {id : PyStr} {digest : PyValue} (hs : Supersedes items sup id digest) :
    ∃ sup' digest', Supersedes items' sup' id digest' ∧ PyValue.Same digest digest' ∧
      digest.WF ∧ digest'.WF := by
  obtain ⟨w, hw', hsup⟩ := PyValue.exists_getStr_of_same hw h hs.sup_eq
  obtain ⟨sup', rfl⟩ := PyValue.exists_dict_of_isDict (PyValue.isDict_of_same hsup).symm
  have hwf := PyValue.wf_of_getKey hv hs.sup_eq
  have hwf' := PyValue.wf_of_getKey hw hw'
  obtain ⟨_, hid, he⟩ := PyValue.exists_getStr_of_same hwf' hsup hs.receiptId_eq
  cases he
  refine ⟨sup', _, ⟨hw', hid, rfl⟩, ?_⟩
  rw [← hs.digest_eq, getStr, getStr]
  have hrel := PyValue.getKey_of_same hwf' hsup (.str (lit "digest"))
  generalize ha : getKey (.str (lit "digest")) sup = a at hrel
  generalize hb : getKey (.str (lit "digest")) sup' = b at hrel
  cases hrel with
  | none => exact ⟨rfl, PyValue.wf_none, PyValue.wf_none⟩
  | some hs => exact ⟨hs, PyValue.wf_of_getKey hwf ha, PyValue.wf_of_getKey hwf' hb⟩

/-- That a record follows nothing is kept. -/
theorem linked_none_of_same {v w : PyValue} {publicKey : Option P.PublicKey}
    (hver : verify P v publicKey = true) (hv : v.WF) (hw : w.WF) (h : PyValue.Same v w)
    (hl : linked P none v = .ok true) : linked P none w = .ok true := by
  obtain ⟨items, _, _, _, _, _, _, rfl, _⟩ := (verify_iff P).mp hver
  obtain ⟨items', rfl⟩ := PyValue.exists_dict_of_isDict (PyValue.isDict_of_same h).symm
  rw [linked_none] at hl ⊢
  cases hg : getStr "supersedes" items' with
  | none => rfl
  | some u =>
      obtain ⟨_, hu, _⟩ := PyValue.exists_getStr_of_same hv (PyValue.same_symm hw h) hg
      rw [hl] at hu
      cases hu

/-- The identifier of a record that verifies is kept. -/
theorem recordId_of_same {v w : PyValue} {publicKey : Option P.PublicKey}
    (hver : verify P v publicKey = true) (hw : w.WF) (h : PyValue.Same v w) :
    recordId v = recordId w := by
  obtain ⟨items, _, _, _, _, _, _, rfl, hver, _⟩ := (verify_iff P).mp hver
  obtain ⟨items', rfl⟩ := PyValue.exists_dict_of_isDict (PyValue.isDict_of_same h).symm
  obtain ⟨_, _, hs, _⟩ := shape_of_same hw h hver.toShape
  rw [(recordId_eq hver.toShape).2, (recordId_eq hs).2]

/-- Records that are alike are linked alike. -/
theorem linked_of_alike {p p' r r' : PyValue} {publicKey : Option P.PublicKey}
    (hp : verify P p publicKey = true) (hr : verify P r publicKey = true) (hpp : Alike p p')
    (hrr : Alike r r') (hl : linked P (some p) r = .ok true) :
      linked P (some p') r' = .ok true := by
  have hps := hpp.same P hp
  have hrs := hrr.same P hr
  obtain ⟨pi, id, _, _, _, _, _, rfl, hpv, _⟩ := (verify_iff P).mp hp
  obtain ⟨pi', rfl⟩ := PyValue.exists_dict_of_isDict (PyValue.isDict_of_same hps).symm
  obtain ⟨_, _, hpshape, _⟩ := shape_of_same hpp.right_wf hps hpv.toShape
  obtain ⟨items, _, _, _, _, _, _, rfl, _⟩ := (verify_iff P).mp hr
  obtain ⟨items', rfl⟩ := PyValue.exists_dict_of_isDict (PyValue.isDict_of_same hrs).symm
  rw [linked_some P (recordId_eq hpv.toShape).1] at hl
  rw [linked_some P (recordId_eq hpshape).1]
  obtain ⟨sup, digest, data, hs, hdata, heq⟩ := hl
  obtain ⟨sup', digest', hs', hd, hwd, hwd'⟩ := supersedes_of_same hrr.left_wf hrr.right_wf hrs hs
  refine ⟨sup', digest', data, hs', hpp.canonicalJson_eq ▸ hdata, ?_⟩
  rw [pyEq_hashObject_iff P hwd] at heq
  rw [pyEq_hashObject_iff P hwd']
  exact PyValue.same_trans (PyValue.same_symm hwd' hd) heq

/-- A chain stays one when its records are replaced by alike ones. -/
theorem history_of_alike {A B : List PyValue} {publicKey : Option P.PublicKey}
    (h : List.Forall₂ Alike A B) (hA : History (rules P publicKey) A) :
    History (rules P publicKey) B :=
  hA.of_forall₂ (fun _ _ hab ha => verify_of_same P hab.left_wf hab.right_wf (hab.same P ha) ha)
    (fun _ _ hab ha => recordId_of_same P ha hab.right_wf (hab.same P ha))
    (fun _ _ hab ha => linked_none_of_same P ha hab.left_wf hab.right_wf (hab.same P ha))
    (fun _ _ _ _ hab hcd ha hc => linked_of_alike P ha hc hab hcd) h

/-- A checkpoint is about the canonical bytes of the records. -/
theorem describe_congr {A B : List PyValue} (h : A.map canonicalJson = B.map canonicalJson) :
    describe P A = describe P B := by
  have hlen : A.length = B.length := by
    have := congrArg List.length h
    rwa [List.length_map, List.length_map] at this
  have hhead : A.head?.map canonicalJson = B.head?.map canonicalJson := by
    rw [← List.head?_map, h, List.head?_map]
  have hlast : A.getLast?.map canonicalJson = B.getLast?.map canonicalJson := by
    rw [← List.getLast?_map, h, List.getLast?_map]
  rw [describe, describe, hlen]
  generalize A.head? = a, B.head? = b at hhead
  generalize A.getLast? = c, B.getLast? = d at hlast
  cases a with
  | none => cases b with
    | none => rfl
    | some b => cases hhead
  | some a => cases b with
    | none => cases hhead
    | some b => cases c with
      | none => cases d with
        | none => rfl
        | some d => cases hlast
      | some c => cases d with
        | none => cases hlast
        | some d =>
            have h1 : canonicalJson a = canonicalJson b := Option.some.inj hhead
            have h2 : canonicalJson c = canonicalJson d := Option.some.inj hlast
            simp only [h1, h2]

theorem map_canonicalJson_of_alike {A B : List PyValue} (h : List.Forall₂ Alike A B) :
    A.map canonicalJson = B.map canonicalJson := by
  induction h with
  | nil => rfl
  | cons hab _ ih => rw [List.map_cons, List.map_cons, hab.canonicalJson_eq, ih]

/-- A list that is accepted still is, under the checkpoint of before. -/
theorem verifyChain_of_alike {A B : List PyValue} {publicKey : Option P.PublicKey}
    {checkpoint : PyValue} (h : List.Forall₂ Alike A B)
    (hA : verifyChain P (.list A) publicKey checkpoint = true) :
    verifyChain P (.list B) publicKey checkpoint = true := by
  rw [verifyChain_iff] at hA ⊢
  refine ⟨history_of_alike P h hA.1, ?_⟩
  have hdescribe := describe_congr P (map_canonicalJson_of_alike h)
  rw [← hA.2, matchesCheckpoint.eq_def, matchesCheckpoint.eq_def, hdescribe]

/-- The verdict on a list is the one on any alike list. -/
theorem verifyChain_congr {A B : List PyValue} (publicKey : Option P.PublicKey)
    (checkpoint : PyValue) (h : List.Forall₂ Alike A B) :
    verifyChain P (.list A) publicKey checkpoint =
      verifyChain P (.list B) publicKey checkpoint := by
  rw [Bool.eq_iff_iff]
  refine ⟨verifyChain_of_alike P h, verifyChain_of_alike P ?_⟩
  exact (List.Forall₂.imp (fun _ _ hab => hab.symm) h).flip

/-- Alike lists have one checkpoint, or the same exception. -/
theorem chainCheckpoint_congr {A B : List PyValue} (h : List.Forall₂ Alike A B) :
    chainCheckpoint P (.list A) = chainCheckpoint P (.list B) := by
  rw [chainCheckpoint, chainCheckpoint, verifyChain_congr P none .none h,
    describe_congr P (map_canonicalJson_of_alike h)]

/-- A list of objects. -/
def pyList (records : List PyObject) : PyValue := .list (records.map PyObject.val)

/-- Records that are left as they are, or replaced by ones with their bytes. -/
theorem alike_of_forall₂ {A B : List PyObject}
    (h : List.Forall₂ (fun a b => a = b ∨ SameBytes a.val b.val) A B) :
    List.Forall₂ Alike (A.map PyObject.val) (B.map PyObject.val) := by
  rw [List.forall₂_map_left_iff, List.forall₂_map_right_iff]
  exact h.imp fun a b hab => ⟨a.wf, b.wf, hab.imp (congrArg PyObject.val) id⟩

/-- Every verdict is about the canonical bytes: of one record under any key, and
of a list in which any records are replaced by ones with the same bytes. -/
theorem canonical_verdict :
    (∀ r r' : PyObject, SameBytes r.val r'.val →
      (validateRecord P r.val = .ok () ↔ validateRecord P r'.val = .ok ()) ∧
      ∀ publicKey, verify P r.val publicKey = verify P r'.val publicKey) ∧
    ∀ A B : List PyObject, List.Forall₂ (fun a b => a = b ∨ SameBytes a.val b.val) A B →
      (∀ publicKey checkpoint, verifyChain P (pyList A) publicKey checkpoint =
        verifyChain P (pyList B) publicKey checkpoint) ∧
      chainCheckpoint P (pyList A) = chainCheckpoint P (pyList B) := by
  constructor
  · rintro r r' ⟨b, hb, hb'⟩
    have hs := same_of_canonicalJson r.wf r'.wf hb hb'
    have hs' := same_of_canonicalJson r'.wf r.wf hb' hb
    refine ⟨⟨validateRecord_of_same P r.wf r'.wf hs, validateRecord_of_same P r'.wf r.wf hs'⟩,
      fun publicKey => ?_⟩
    rw [Bool.eq_iff_iff]
    exact ⟨verify_of_same P r.wf r'.wf hs, verify_of_same P r'.wf r.wf hs'⟩
  · intro A B h
    have halike := alike_of_forall₂ h
    exact ⟨fun publicKey checkpoint => verifyChain_congr P publicKey checkpoint halike,
      chainCheckpoint_congr P halike⟩

/-- What the first vector is read back as verifies too. -/
theorem canonical_verdict_vectors :
    ∃ w : PyObject, loadsBytes .default (Vector.bytes Vector.action) = some w.val ∧
      verify Vector.platform w.val (some Vector.publicKey) = true := by
  have hb : canonicalJson Vector.action = .ok (Vector.bytes Vector.action) := by decide +kernel
  have hj := (jsonAble_iff_canonicalJson Vector.action_wf).mpr ⟨_, hb⟩
  obtain ⟨w, hw, hwf, _, hc⟩ := wire_read Decoder.default_plain Vector.action_wf hj (.canonical hb)
  have h := (canonical_verdict Vector.platform).1 ⟨Vector.action, Vector.action_wf⟩ ⟨w, hwf⟩
    ⟨_, hb, hc.trans hb⟩
  exact ⟨⟨w, hwf⟩, hw, (h.2 (some Vector.publicKey)).symm.trans Vector.verify_action⟩

end Corrlog
