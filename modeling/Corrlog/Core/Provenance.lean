import Corrlog.Core.Attribution
import Corrlog.Core.Forks

/-!
# Provenance

`tamper_evident` is about one record.  For a whole chain it says more: not only has
the key made each record, it has made each of them as a correction of the one that
comes before it in the chain (`chain_provenance`).  Whoever presents a chain under a
key that signs through the constructors only can choose among the histories that the
constructors were asked for, and present no other.
-/

namespace Corrlog

open Python
open Linear (History)

variable {P : Platform} {privateKey : P.PrivateKey}

/-! ## What a call corrects -/

/-- The record that a call corrects. -/
def Call.prior? : Call → Option PyObject
  | .record _ _ => none
  | .retract _ a => some a.priorRecord
  | .unknown _ _ => none

/-- The field of a body that says what the call corrects. -/
def Superseded (P : Platform) (c : Call) (sup : Option PyValue) : Prop :=
  match c.prior? with
  | none => sup = none
  | some prior => ∃ s, sup = some s ∧ supersedesField P prior.val = .ok s

theorem Call.body_superseded {c : Call} {b : PyValue} (h : c.body privateKey = .ok b) :
    ∃ sup, Superseded P c sup ∧ IsBody privateKey sup b := by
  cases c with
  | record env a => exact ⟨none, rfl, recordBody_isBody h⟩
  | unknown env a => exact ⟨none, rfl, unknownBody_isBody h⟩
  | retract env a =>
      obtain ⟨sup, hsup, hb⟩ := retractBody_isBody h
      exact ⟨some sup, ⟨sup, rfl, hsup⟩, hb⟩

/-- What a call has signed says what it corrects. -/
theorem Call.signed_superseded {c : Call} {data : Bytes}
    (h : (c.outcome privateKey).signed = some data) :
    ∃ sup items agent kid, Superseded P c sup ∧ Body privateKey sup items agent ∧ kid.WF ∧
      canonicalJson (.dict (blanked privateKey kid items)) = .ok data ∧
      (c.outcome privateKey).result =
        (validateRecord P (.dict (completed privateKey kid data items))).map
          fun _ => .dict (completed privateKey kid data items) := by
  rw [c.outcome_eq] at h ⊢
  obtain ⟨b, r, hb, hsign, hresult⟩ := finish_signed h
  obtain ⟨sup, hsup, items, agent, rfl, hbody⟩ := c.body_superseded hb
  obtain ⟨hdata, rfl⟩ := sign_eq_ok hsign
  exact ⟨sup, items, agent, _, hsup, hbody, orDefault_wf c.kid.wf (PyValue.wf_str _), hdata, hresult⟩

/-! ## One record -/

/-- The call has returned a record with the payload of this one. -/
def Made (privateKey : P.PrivateKey) (c : Call) (r : PyValue) : Prop :=
  ∃ r0 data, (c.outcome privateKey).result = .ok r0 ∧ (payload r >>= canonicalJson) = .ok data ∧
    (payload r0 >>= canonicalJson) = .ok data

/-- The record says that it corrects what the call corrects. -/
def SaysPrior (P : Platform) (c : Call) (items : Items) : Prop :=
  ∃ body sup, (PyValue.dict body).WF ∧ Superseded P c sup ∧ getStr "supersedes" body = sup ∧
    ∃ blank, (PyValue.dict (setStr "signature" blank items)).WF ∧
      PyValue.Same (.dict (setStr "signature" blank items)) (.dict body)

/-- A verified record was made by a call, and corrects what the call corrects. -/
theorem made_of_verify {calls : List Call}
    (hideal : ∀ sig data, P.verify (P.publicKey privateKey) sig data = true →
      ∃ c ∈ calls, (c.outcome privateKey).signed = some data)
    {r : PyObject} (h : verify P r.val (some (P.publicKey privateKey)) = true) :
    ∃ c ∈ calls, Made privateKey c r.val ∧ ∃ items, r.val = .dict items ∧ SaysPrior P c items := by
  obtain ⟨r, hwf⟩ := r
  obtain ⟨items, id, agent, sigMeta, k, sig, data, rfl, hver, hk⟩ := (verify_iff P).mp h
  cases hk _ rfl
  obtain ⟨c, hc, hsigned⟩ := hideal sig data hver.signed
  obtain ⟨sup, bitems, bagent, kid, hsup, hbody, hkid, hdata, hresult⟩ := c.signed_superseded hsigned
  have hblank : (PyValue.dict (blanked privateKey kid bitems)).WF :=
    PyValue.wf_setStr (blankSignature_wf hkid) hbody.wf
  have hpay := payload_wf hwf hver.sigMeta_eq
  have hdata' := hver.data_eq
  rw [payload_eq hver.toShape] at hdata'
  refine ⟨c, hc, ⟨.dict (completed privateKey kid data bitems), data, ?_, hver.data_eq,
    bind_eq_ok.mpr ⟨_, payload_completed, hdata⟩⟩, items, rfl, blanked privateKey kid bitems, sup,
    hblank, hsup, ?_, _, hpay, same_of_canonicalJson hpay hblank hdata' hdata⟩
  · rw [hresult, completed_valid hwf hver hbody hkid hdata]
    rfl
  · rw [blanked, getStr_setStr_ne (by decide), hbody.sup_eq]

/-- A first record was made by a call that corrects nothing. -/
theorem SaysPrior.first {c : Call} {items : Items} (h : SaysPrior P c items)
    (hfirst : getStr "supersedes" items = none) : c.prior? = none := by
  obtain ⟨body, sup, hwf, hsup, hget, blank, hpay, hsame⟩ := h
  rw [Superseded] at hsup
  cases hp : c.prior? with
  | none => rfl
  | some prior =>
      rw [hp] at hsup
      obtain ⟨s, rfl, _⟩ := hsup
      obtain ⟨w, hw, _⟩ := PyValue.exists_getStr_of_same hpay (PyValue.same_symm hwf hsame) hget
      rw [getStr_setStr_ne (by decide), hfirst] at hw
      cases hw

/-- A record that follows another one was made as a correction of it. -/
theorem SaysPrior.next {c : Call} {p : PyObject} {items : Items} {publicKey : Option P.PublicKey}
    (h : SaysPrior P c items) (hp : verify P p.val publicKey = true)
    (hl : linked P (some p.val) (.dict items) = .ok true)
    (hcoll : ∀ prior ∈ c.prior?, NoCollision P [p] [prior]) :
    ∃ prior ∈ c.prior?, canonicalJson prior.val = canonicalJson p.val := by
  obtain ⟨body, sup, hwf, hsup, hget, blank, hpay, hsame⟩ := h
  obtain ⟨_, id, _, _, _, _, _, hpv, hver, _⟩ := (verify_iff P).mp hp
  have hid : p.val.getItem "correctionId" = .ok (.str id) := hpv ▸ (recordId_eq hver.toShape).1
  obtain ⟨fields, digest, data, hs, hdata, heq⟩ := (linked_some P hid).mp hl
  have hs' : Supersedes (setStr "signature" blank items) fields id digest :=
    ⟨(getStr_setStr_ne (by decide) _ _).trans hs.sup_eq, hs.receiptId_eq, hs.digest_eq⟩
  obtain ⟨fields', digest', hbody, hdd, hwd, hwd'⟩ := supersedes_of_same hpay hwf hsame hs'
  rw [Superseded] at hsup
  cases hprior : c.prior? with
  | none =>
      rw [hprior] at hsup
      rw [hbody.sup_eq, hsup] at hget
      cases hget
  | some prior =>
      rw [hprior] at hsup
      obtain ⟨s, rfl, hfield⟩ := hsup
      obtain ⟨data', hdata', rfl⟩ := digest_of_field hfield hbody hget
      refine ⟨prior, rfl, ?_⟩
      -- the record names the digest of both
      rw [pyEq_hashObject_iff P hwd] at heq
      have hsha := sha256_eq_of_same P
        (PyValue.same_trans (PyValue.same_symm (hashObject_wf P data) heq) hdd)
      rw [hdata, hdata', hcoll prior hprior p (List.mem_singleton_self p) prior
        (List.mem_singleton_self prior) data data' hdata hdata' hsha]

/-! ## A chain -/

/-- With an ideal signature, a chain under a key used by the constructors only is one
that they were asked for: its first record was made by a call that corrects nothing,
and each other one by a correction of the record before it. -/
theorem chain_provenance {P : Platform} {privateKey : P.PrivateKey} {calls : List Call}
    (hideal : ∀ sig data, P.verify (P.publicKey privateKey) sig data = true →
      ∃ c ∈ calls, (c.outcome privateKey).signed = some data)
    {B : List PyObject}
    (hB : verifyChain P (pyList B) (some (P.publicKey privateKey)) .none = true)
    (hcoll : ∀ c ∈ calls, ∀ prior ∈ c.prior?, NoCollision P B [prior]) :
    (∀ b ∈ B.head?, ∃ c ∈ calls, Made privateKey c b.val ∧ c.prior? = none) ∧
      B.IsChain fun p b => ∃ c ∈ calls, Made privateKey c b.val ∧
        ∃ prior ∈ c.prior?, canonicalJson prior.val = canonicalJson p.val := by
  have hist := ((verifyChain_iff P).mp hB).1
  have hok : ∀ b ∈ B, verify P b.val (some (P.publicKey privateKey)) = true :=
    fun b hb => hist.ok _ (List.mem_map_of_mem hb)
  constructor
  · intro b hb
    obtain ⟨c, hc, hmade, items, hitems, hsays⟩ :=
      made_of_verify hideal (hok b (List.mem_of_mem_head? hb))
    refine ⟨c, hc, hmade, hsays.first ((linked_none P).mp ?_)⟩
    rw [← hitems]
    exact hist.first b.val (by rw [List.head?_map, Option.mem_def.mp hb]; rfl)
  · have hnext : B.IsChain fun p b => linked P (some p.val) b.val = .ok true :=
      List.isChain_map PyObject.val |>.mp hist.next
    refine hnext.imp_of_mem_imp fun p b hp hb hl => ?_
    obtain ⟨c, hc, hmade, items, hitems, hsays⟩ := made_of_verify hideal (hok b hb)
    rw [hitems] at hl
    refine ⟨c, hc, hmade, hsays.next (hok p hp) hl fun prior hprior a ha => ?_⟩
    rw [List.mem_singleton.mp ha]
    exact hcoll c hc prior hprior p hp

namespace Vector

/-- What verifies under the key of the vectors was signed by one of the calls. -/
theorem signed_of_verify (sig data : Bytes) (h : platform.verify publicKey sig data = true) :
    ∃ c ∈ calls, (c.outcome (P := platform) ()).signed = some data := by
  have hmem : some data ∈ calls.map fun c => (c.outcome (P := platform) ()).signed := by
    have hsig := (of_decide_eq_true h).2
    rw [calls_signed]
    rw [sign] at hsig
    split at hsig
    next heq => exact heq ▸ List.mem_cons_self
    next =>
      split at hsig
      next heq => exact heq ▸ List.mem_cons_of_mem _ List.mem_cons_self
      next => cases hsig
  exact List.mem_map.mp hmem

theorem prior_mem_records {c : Call} (hc : c ∈ calls) {prior : PyObject}
    (h : prior ∈ c.prior?) : prior ∈ records := by
  rcases List.mem_pair.mp hc with rfl | rfl
  · cases h
  · rw [← Option.some.inj h]
    exact List.mem_cons_self

end Vector

theorem chain_provenance_vectors :
    Vector.records.IsChain fun p b => ∃ c ∈ Vector.calls,
      Made (P := Vector.platform) () c b.val ∧
        ∃ prior ∈ c.prior?, canonicalJson prior.val = canonicalJson p.val := by
  refine (chain_provenance Vector.signed_of_verify (B := Vector.records)
    Vector.verifyChain_vectors fun c hc prior hprior a ha b hb => ?_).2
  rw [List.mem_singleton.mp hb]
  exact Vector.noCollision_records a ha prior (Vector.prior_mem_records hc hprior)

end Corrlog
