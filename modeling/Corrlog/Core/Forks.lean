import Corrlog.Core.Lifecycle
import Corrlog.Linear.Forest

/-!
# Forks

Every correction names the digest of the whole record before it, so chains form a
forest.  Two chains that share a record share all records before it, at the same
places (`shared_history`): histories that have parted never meet again.  In
particular the last digest of a chain says all there is to say of it, and the length
and the first digest of a checkpoint add nothing to it (`head_determines`).

A correction extends a chain exactly if it was made of its last record and has a new
identifier (`chain_growth`).
-/

namespace Corrlog

open Python
open Linear (History Backward history_concat)

variable (P : Platform)

/-- No record of one list has the digest of another record of the other. -/
def NoCollision (A B : List PyObject) : Prop :=
  ∀ a ∈ A, ∀ b ∈ B, ∀ x y, canonicalJson a.val = .ok x → canonicalJson b.val = .ok y →
    P.sha256 x = P.sha256 y → x = y

/-! ## The forest -/

/-- A record that follows another one is no first one. -/
theorem not_first_of_next {publicKey : Option P.PublicKey} (a b : PyValue)
    (ha : (rules P publicKey).ok a) (hb : (rules P publicKey).ok b)
    (h : (rules P publicKey).next a b) : ¬ (rules P publicKey).first b := by
  intro hfirst
  have hpred := predecessor_of_next P a b ha hb h
  rw [predecessor_of_first P b hb hfirst] at hpred
  cases hpred

theorem alike_of_canonicalJson {a b : PyObject} {publicKey : Option P.PublicKey}
    (ha : verify P a.val publicKey = true) (h : canonicalJson a.val = canonicalJson b.val) :
    Alike a.val b.val := by
  obtain ⟨x, hx⟩ := canonicalJson_of_verify P ha
  exact ⟨a.wf, b.wf, Or.inr ⟨x, hx, h ▸ hx⟩⟩

theorem first_of_canonicalJson {a b : PyObject} {publicKey : Option P.PublicKey}
    (ha : verify P a.val publicKey = true) (h : canonicalJson a.val = canonicalJson b.val)
    (hfirst : (rules P publicKey).first a.val) : (rules P publicKey).first b.val :=
  have halike := alike_of_canonicalJson P ha h
  linked_none_of_same P ha a.wf b.wf (halike.same P ha) hfirst

/-- The bytes of a record tell those of the one before it. -/
theorem backward_canonicalJson {A B : List PyObject} {publicKey : Option P.PublicKey}
    (hA : History (rules P publicKey) (A.map PyObject.val))
    (hB : History (rules P publicKey) (B.map PyObject.val)) (hcoll : NoCollision P A B) :
    Backward (rules P publicKey) canonicalJson (A.map PyObject.val) (B.map PyObject.val) := by
  constructor
  case first =>
    intro a ha b hb hkey
    have hva := hA.ok a ha
    have hvb := hB.ok b hb
    obtain ⟨a, _, rfl⟩ := List.mem_map.mp ha
    obtain ⟨b, _, rfl⟩ := List.mem_map.mp hb
    exact ⟨first_of_canonicalJson P hva hkey, first_of_canonicalJson P hvb hkey.symm⟩
  case next =>
    intro a ha b hb a' ha' b' hb' hab hab' hkey
    have hva := hA.ok a ha
    have hvb := hA.ok b hb
    have hva' := hB.ok a' ha'
    obtain ⟨a, hamem, rfl⟩ := List.mem_map.mp ha
    obtain ⟨b, _, rfl⟩ := List.mem_map.mp hb
    obtain ⟨a', hamem', rfl⟩ := List.mem_map.mp ha'
    obtain ⟨b', _, rfl⟩ := List.mem_map.mp hb'
    exact canonicalJson_eq_of_linked P hva hva' hvb (alike_of_canonicalJson P hvb hkey) hab hab'
      (hcoll a hamem a' hamem')

/-- A chain under any key is a history without one. -/
theorem history_of_verifyChain {A : List PyObject} {publicKey : Option P.PublicKey}
    {checkpoint : PyValue} (h : verifyChain P (pyList A) publicKey checkpoint = true) :
    History (rules P none) (A.map PyObject.val) :=
  history_none P ((verifyChain_iff P).mp h).1

section

variable {A B : List PyObject} {publicKey publicKey' : Option P.PublicKey}
  (hA : verifyChain P (pyList A) publicKey .none = true)
  (hB : verifyChain P (pyList B) publicKey' .none = true) (hcoll : NoCollision P A B)

include hA hB hcoll

theorem take_of_shared {i j : ℕ} (hi : i < A.length) (hj : j < B.length)
    (h : canonicalJson A[i].val = canonicalJson B[j].val) :
    i = j ∧ ((A.map PyObject.val).map canonicalJson).take (i + 1) =
      ((B.map PyObject.val).map canonicalJson).take (i + 1) := by
  have histA := history_of_verifyChain P hA
  have histB := history_of_verifyChain P hB
  refine histA.meet (not_first_of_next P) histB (backward_canonicalJson P histA histB hcoll)
    (by simpa using hi) (by simpa using hj) ?_
  simpa using h

/-- Two chains that share a record have it at one place, and share all records before
it. -/
theorem shared_history {i j : ℕ} (hi : i < A.length) (hj : j < B.length)
    (h : canonicalJson A[i].val = canonicalJson B[j].val) :
    i = j ∧ ∀ k (ha : k < A.length) (hb : k < B.length), k ≤ i →
      canonicalJson A[k].val = canonicalJson B[k].val := by
  obtain ⟨hij, htake⟩ := take_of_shared P hA hB hcoll hi hj h
  refine ⟨hij, fun k ha hb hk => ?_⟩
  have hget := congrArg (·[k]?) htake
  simpa [List.getElem?_take_of_lt (Nat.lt_succ_of_le hk), ha, hb] using hget

end

namespace Vector

/-- An object with its members the other way round. -/
def turn : PyValue → PyValue
  | .dict items => .dict items.reverse
  | v => v

/-- The two vectors, turned. -/
def turned : List PyObject :=
  [⟨turn action, by decide +kernel⟩, ⟨turn correction, by decide +kernel⟩]

theorem alike_turned :
    List.Forall₂ Alike (records.map PyObject.val) (turned.map PyObject.val) := by
  have hok : ∀ a ∈ records.map PyObject.val, verify platform a (some publicKey) = true :=
    List.forall_mem_cons.mpr ⟨verify_action, List.forall_mem_singleton.mpr verify_correction⟩
  exact forall₂_alike_of_map_eq platform hok (by decide +kernel)

theorem verifyChain_turned :
    verifyChain platform (pyList turned) (some publicKey) .none = true :=
  verifyChain_of_alike platform alike_turned verifyChain_vectors

theorem noCollision_records : NoCollision platform records records := by
  intro a ha b hb x y hx hy hsha
  rw [canonicalJson_records a ha, Except.ok.injEq] at hx
  rw [canonicalJson_records b hb, Except.ok.injEq] at hy
  subst hx hy
  rw [List.inj_on_of_nodup_map sha256_records ha hb hsha]

/-- Records with the bytes of the vectors have no other digests. -/
theorem noCollision_of_map {B : List PyObject}
    (h : records.map (fun r => canonicalJson r.val) = B.map fun r => canonicalJson r.val) :
    NoCollision platform records B := by
  intro a ha b hb x y hx hy
  obtain ⟨b', hb', hbb⟩ := List.mem_map.mp (h ▸ List.mem_map_of_mem hb)
  exact noCollision_records a ha b' hb' x y hx (hbb.trans hy)

theorem noCollision_turned : NoCollision platform records turned :=
  noCollision_of_map (by
    have h := map_canonicalJson_of_alike alike_turned
    rwa [List.map_map, List.map_map] at h)

end Vector

theorem shared_history_vectors :
    canonicalJson (Vector.records[0]).val = canonicalJson (Vector.turned[0]).val := by
  have hlast : canonicalJson (Vector.records[1]).val = canonicalJson (Vector.turned[1]).val := by
    decide +kernel
  exact (shared_history Vector.platform (A := Vector.records) Vector.verifyChain_vectors
    Vector.verifyChain_turned Vector.noCollision_turned (by decide) (by decide) hlast).2 0
      (by decide) (by decide) (Nat.zero_le 1)

/-! ## Heads -/

/-- Chains whose last records have one digest have the same bytes throughout. -/
theorem map_canonicalJson_of_digest {A B : List PyObject} {publicKey : Option P.PublicKey}
    (histA : History (rules P publicKey) (A.map PyObject.val))
    (histB : History (rules P publicKey) (B.map PyObject.val)) (hcoll : NoCollision P A B)
    {last last' : PyValue} {y y' : Bytes} (hlast : (A.map PyObject.val).getLast? = some last)
    (hlast' : (B.map PyObject.val).getLast? = some last') (hy : canonicalJson last = .ok y)
    (hy' : canonicalJson last' = .ok y') (hhead : digestText P y = digestText P y') :
    (A.map PyObject.val).map canonicalJson = (B.map PyObject.val).map canonicalJson := by
  obtain ⟨r, hr, rfl⟩ := List.mem_map.mp (List.mem_of_getLast? hlast)
  obtain ⟨r', hr', rfl⟩ := List.mem_map.mp (List.mem_of_getLast? hlast')
  have hyy := hcoll r hr r' hr' y y' hy hy' (b64url_injective (ofChars_injective hhead))
  obtain ⟨p, hp⟩ := List.getLast?_eq_some_iff.mp hlast
  obtain ⟨q, hq⟩ := List.getLast?_eq_some_iff.mp hlast'
  have hback := backward_canonicalJson P histA histB hcoll
  have hkey : canonicalJson r.val = canonicalJson r'.val := by rw [hy, hy', hyy]
  rw [hp] at histA hback ⊢
  rw [hq] at histB hback ⊢
  rw [List.map_append, List.map_append, histA.keys_eq_of_last (not_first_of_next P) histB hback
    hkey, List.map_singleton, List.map_singleton, hkey]

/-- The checkpoints of two chains have one head exactly if the chains have the same
bytes throughout, and then they are equal. -/
theorem head_determines {A B : List PyObject} {publicKey publicKey' : Option P.PublicKey}
    (hA : verifyChain P (pyList A) publicKey .none = true)
    (hB : verifyChain P (pyList B) publicKey' .none = true) (hcoll : NoCollision P A B) :
    ∃ a b, chainCheckpoint P (pyList A) = .ok a ∧ chainCheckpoint P (pyList B) = .ok b ∧
      (a.getItem "head" = b.getItem "head" ↔
        A.map (fun r => canonicalJson r.val) = B.map fun r => canonicalJson r.val) ∧
      (a.getItem "head" = b.getItem "head" → a = b) := by
  have histA := history_of_verifyChain P hA
  have histB := history_of_verifyChain P hB
  obtain ⟨_, last, _, y, _, hlast, _, hy, hdesc⟩ := describe_of_history P histA
  obtain ⟨_, last', _, y', _, hlast', _, hy', hdesc'⟩ := describe_of_history P histB
  have hhead (n : ℕ) (g h : PyStr) : (checkpointDict n g h).getItem "head" = .ok (.str h) :=
    PyValue.getItem_eq_ok.mpr ⟨_, rfl, (getStr_members _ _).trans rfl⟩
  have hkeys (heq : digestText P y = digestText P y') :=
    map_canonicalJson_of_digest P histA histB hcoll hlast hlast' hy hy' heq
  refine ⟨_, _, (chainCheckpoint_eq P histA).trans hdesc, (chainCheckpoint_eq P histB).trans hdesc',
    ?_, ?_⟩
  · rw [hhead, hhead]
    constructor
    · intro heq
      have h := hkeys (PyValue.str.inj (Except.ok.inj heq))
      rwa [List.map_map, List.map_map] at h
    · intro heq
      have h := congrArg List.getLast? heq
      have hA' : A.getLast?.map (fun r => canonicalJson r.val) = some (.ok y) := by
        rw [← hy, ← Option.map_some (f := canonicalJson), ← hlast, List.getLast?_map,
          Option.map_map]
        rfl
      have hB' : B.getLast?.map (fun r => canonicalJson r.val) = some (.ok y') := by
        rw [← hy', ← Option.map_some (f := canonicalJson), ← hlast', List.getLast?_map,
          Option.map_map]
        rfl
      rw [List.getLast?_map, List.getLast?_map, hA', hB'] at h
      rw [Except.ok.inj (Option.some.inj h)]
  · rw [hhead, hhead]
    intro heq
    have h := describe_congr P (hkeys (PyValue.str.inj (Except.ok.inj heq)))
    rw [hdesc, hdesc'] at h
    exact Except.ok.inj h

theorem head_determines_vectors :
    ∃ a b, chainCheckpoint Vector.platform (pyList Vector.records) = .ok a ∧
      chainCheckpoint Vector.platform (pyList Vector.turned) = .ok b ∧ a = b := by
  obtain ⟨a, b, ha, hb, hiff, heq⟩ := head_determines Vector.platform (A := Vector.records)
    Vector.verifyChain_vectors Vector.verifyChain_turned Vector.noCollision_turned
  have hmap := map_canonicalJson_of_alike Vector.alike_turned
  rw [List.map_map, List.map_map] at hmap
  exact ⟨a, b, ha, hb, heq (hiff.mpr hmap)⟩

/-- With the checkpoint of a chain a list is accepted exactly if it has its bytes. -/
theorem verifyChain_checkpoint {A B : List PyObject} {pk : P.PublicKey} {checkpoint : PyValue}
    (hA : verifyChain P (pyList A) (some pk) .none = true)
    (hc : chainCheckpoint P (pyList A) = .ok checkpoint) (hcoll : NoCollision P A B) :
    verifyChain P (pyList B) (some pk) checkpoint = true ↔
      (A.map PyObject.val).map canonicalJson = (B.map PyObject.val).map canonicalJson := by
  have hist := ((verifyChain_iff P).mp hA).1
  obtain ⟨_, last, x, y, _, hlast, _, hy, hdesc⟩ := describe_of_history P hist
  rw [pyList, chainCheckpoint_eq P hist, hdesc, Except.ok.injEq] at hc
  subst hc
  constructor
  · intro hB
    obtain ⟨histB, hmatch⟩ := (verifyChain_iff P).mp hB
    obtain ⟨_, last', _, y', _, hlast', _, hy', hdesc'⟩ := describe_of_history P histB
    obtain ⟨_, _, hhead⟩ := (matchesCheckpoint_iff P hdesc').mp hmatch
    exact map_canonicalJson_of_digest P hist histB hcoll hlast hlast' hy hy' hhead
  · intro hmap
    exact verifyChain_of_alike P (forall₂_alike_of_map_eq P hist.ok hmap)
      ((verifyChain_iff P).mpr ⟨hist, (matchesCheckpoint_iff P hdesc).mpr ⟨rfl, rfl, rfl⟩⟩)

/-! ## Growth -/

variable {P} {privateKey : P.PrivateKey}

/-- The digest in a `supersedes` field. -/
theorem digest_of_field {prior sup digest : PyValue} {items fields : Items} {id : PyStr}
    (hsup : supersedesField P prior = .ok sup) (hs : Supersedes items fields id digest)
    (hget : getStr "supersedes" items = some sup) :
    ∃ data, canonicalJson prior = .ok data ∧ digest = hashObject P data := by
  obtain ⟨data, hdata, hsup⟩ := bind_eq_ok.mp hsup
  obtain ⟨_, _, hsup⟩ := bind_eq_ok.mp hsup
  obtain ⟨_, _, hsup⟩ := bind_eq_ok.mp hsup
  cases hsup
  have hfields := hs.sup_eq
  rw [hget, Option.some.injEq] at hfields
  cases hfields
  exact ⟨data, hdata, hs.digest_eq.symm⟩

/-- A returned correction follows the records with the bytes of its prior record. -/
theorem linked_of_retract {env : Env} {a : RetractArgs} {p : PyObject} {r : PyValue}
    {publicKey : Option P.PublicKey}
    (hsign : ∀ data, P.verify (P.publicKey privateKey) (P.sign privateKey data) data = true)
    (hp : verify P p.val publicKey = true) (hr : (retract P privateKey env a).result = .ok r)
    (hc : canonicalJson a.priorRecord.val = canonicalJson p.val) :
    linked P (some p.val) r = .ok true := by
  obtain ⟨sup, hsup, hret⟩ := retract_returned hr
  obtain ⟨items, _, _, _, _, _, rfl, _, hget, _⟩ := hret.verified hsign
  obtain ⟨pitems, id, _, _, _, _, _, hpv, hver, _⟩ := (verify_iff P).mp hp
  have hid : p.val.getItem "correctionId" = .ok (.str id) := hpv ▸ (recordId_eq hver.toShape).1
  obtain ⟨x, hx⟩ := canonicalJson_of_verify P hp
  have hsame := same_of_canonicalJson p.wf a.priorRecord.wf hx (hc.trans hx)
  exact (linked_some P hid).mpr (supersedes_of_field hpv p.wf hver.toShape hsame hc hsup hget)

/-- It follows no others. -/
theorem linked_retract {env : Env} {a : RetractArgs} {p : PyObject} {r : PyValue}
    {publicKey : Option P.PublicKey}
    (hsign : ∀ data, P.verify (P.publicKey privateKey) (P.sign privateKey data) data = true)
    (hp : verify P p.val publicKey = true) (hr : (retract P privateKey env a).result = .ok r)
    (hcoll : NoCollision P [p] [a.priorRecord]) :
    linked P (some p.val) r = .ok true ↔
      canonicalJson a.priorRecord.val = canonicalJson p.val := by
  refine ⟨fun h => ?_, linked_of_retract hsign hp hr⟩
  obtain ⟨sup, hsup, hret⟩ := retract_returned hr
  obtain ⟨items, _, _, _, _, _, rfl, _, hget, _⟩ := hret.verified hsign
  obtain ⟨pitems, id, _, _, _, _, _, hpv, hver, _⟩ := (verify_iff P).mp hp
  have hid : p.val.getItem "correctionId" = .ok (.str id) := hpv ▸ (recordId_eq hver.toShape).1
  obtain ⟨fields, digest, data, hs, hdata, heq⟩ := (linked_some P hid).mp h
  obtain ⟨prior, hprior, rfl⟩ := digest_of_field hsup hs hget
  rw [pyEq_hashObject_iff P (hashObject_wf P prior)] at heq
  rw [hdata, hprior]
  refine congrArg Except.ok ?_
  exact (hcoll p (List.mem_singleton_self p) _ (List.mem_singleton_self _) _ _ hdata hprior
    (sha256_eq_of_same P heq).symm).symm

theorem getItem_recordId {r : PyValue} {publicKey : Option P.PublicKey}
    (h : verify P r publicKey = true) : r.getItem "correctionId" = .ok (.str (recordId r)) := by
  obtain ⟨_, _, _, _, _, _, _, rfl, hver, _⟩ := (verify_iff P).mp h
  obtain ⟨hid, hid'⟩ := recordId_eq hver.toShape
  rw [hid, hid']

/-- A returned correction extends a chain under its key exactly if it was made of the
last record, or of one with its bytes, and its identifier is new. -/
theorem chain_growth {A : List PyObject} {env : Env} {a : RetractArgs} {r : PyObject}
    (hsign : ∀ data, P.verify (P.publicKey privateKey) (P.sign privateKey data) data = true)
    (hA : verifyChain P (pyList A) (some (P.publicKey privateKey)) .none = true)
    (hr : (retract P privateKey env a).result = .ok r.val)
    (hcoll : NoCollision P A [a.priorRecord]) :
    verifyChain P (pyList (A ++ [r])) (some (P.publicKey privateKey)) .none = true ↔
      (∃ last ∈ A.getLast?, canonicalJson a.priorRecord.val = canonicalJson last.val) ∧
        ∀ b ∈ A, b.val.getItem "correctionId" ≠ r.val.getItem "correctionId" := by
  have hist := ((verifyChain_iff P).mp hA).1
  obtain ⟨sup, _, hret⟩ := retract_returned hr
  have hok := hret.verify hsign
  have hids : (∀ b ∈ A, b.val.getItem "correctionId" ≠ r.val.getItem "correctionId") ↔
      recordId r.val ∉ (A.map PyObject.val).map recordId := by
    rw [List.map_map, List.mem_map, not_exists]
    refine forall_congr' fun b => ?_
    rw [not_and]
    refine imp_congr_right fun hb => not_congr ?_
    rw [getItem_recordId (hist.ok _ (List.mem_map_of_mem hb)), getItem_recordId hok,
      Except.ok.injEq, PyValue.str.injEq]
    rfl
  rw [pyList, verifyChain_iff, List.map_append, List.map_singleton,
    and_iff_left (show matchesCheckpoint P _ _ .none = .ok true from rfl), history_concat hist,
    hids]
  have hne : A ≠ [] := fun h => hist.ne_nil (by rw [h, List.map_nil])
  obtain ⟨last, hlast⟩ : ∃ last, A.getLast? = some last :=
    ⟨_, List.getLast?_eq_some_getLast hne⟩
  have hlast' : (A.map PyObject.val).getLast? = some last.val := by
    rw [List.getLast?_map, hlast]
    rfl
  have hmem : last ∈ A := List.mem_of_getLast? hlast
  have hlinked := linked_retract hsign (hist.ok _ (List.mem_map_of_mem hmem)) hr
    fun x hx => hcoll x (List.mem_singleton.mp hx ▸ hmem)
  rw [hlast, hlast']
  simp only [Option.mem_def, Option.some.injEq, exists_eq_left', forall_eq']
  rw [← hlinked]
  constructor
  · rintro ⟨_, hnew, hnext⟩
    exact ⟨hnext, hnew⟩
  · rintro ⟨hnext, hnew⟩
    exact ⟨hok, hnew, hnext⟩

theorem chain_growth_vectors : ∃ p r : PyObject, ∃ env a,
    (retract Vector.signing () env a).result = .ok r.val ∧
    verifyChain Vector.signing (pyList ([p] ++ [r]))
      (some (Vector.signing.publicKey ())) .none = true := by
  obtain ⟨p, r, hp, hr, hid⟩ := Vector.exists_isPair
  obtain ⟨_, _, hret⟩ := retract_returned hr
  obtain ⟨_, _, _, _, _, _, _, hwf, _⟩ := hret.verified Vector.signing_verify
  have hpret := record_returned hp
  have hlinked : linked Vector.signing none p.val = .ok true := by
    obtain ⟨_, _, _, _, _, _, hpv, _, hnone, _⟩ := hpret.verified Vector.signing_verify
    rw [hpv]
    exact (linked_none Vector.signing).mpr hnone
  have hchain : verifyChain Vector.signing (pyList [p])
      (some (Vector.signing.publicKey ())) .none = true := by
    refine (verifyChain_iff Vector.signing).mpr ⟨⟨List.cons_ne_nil _ _, ?_, by simp, ?_, ?_⟩, rfl⟩
    · exact List.forall_mem_singleton.mpr (hpret.verify Vector.signing_verify)
    · rintro x hx
      cases hx
      exact hlinked
    · exact .singleton _
  have hcoll : NoCollision Vector.signing [p] [p] := by
    intro a ha b hb x y hx hy _
    rw [List.mem_singleton.mp ha] at hx
    rw [List.mem_singleton.mp hb, hx] at hy
    exact Except.ok.inj hy
  refine ⟨p, ⟨r, hwf⟩, Vector.env, Vector.retractArgs p, hr, ?_⟩
  refine (chain_growth Vector.signing_verify hchain (r := ⟨r, hwf⟩) hr hcoll).mpr
    ⟨⟨p, rfl, rfl⟩, fun b hb heq => hid ?_⟩
  rw [List.mem_singleton.mp hb] at heq
  rw [recordId, recordId, heq]

end Corrlog
