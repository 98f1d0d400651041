import Corrlog.Core.Verify
import Corrlog.Linear.History

/-!
# Correction chains

`verify_chain` and `chain_checkpoint`.  A chain without a checkpoint is accepted
exactly if it is a linear history of verified records (`verifyChain_iff`): the
first record supersedes nothing, and every other one names the identifier and
the digest of the record before it.

From this follows that the records of a chain form no chain but its prefixes
(`verifyChain_subset`).
-/

namespace Corrlog

open Python
open Linear (Rules History Continues)

variable (P : Platform)

/-! ## The code -/

/-- The link check of `verify_chain`, given the record before. -/
def linked (prev : Option PyValue) (rec : PyValue) : Except PyErr Bool :=
  match prev with
  | none => (rec.contains "supersedes").map (!·)
  | some p => do
      let sup ← rec.getMethod "supersedes" (.dict [])
      let receiptId ← sup.getMethod "receiptId" .none
      let id ← p.getItem "correctionId"
      if receiptId.pyEq id then
        let digest ← sup.getMethod "digest" .none
        let data ← canonicalJson p
        return digest.pyEq (hashObject P data)
      else return false

/-- The loop of `verify_chain`, given the record before and the identifiers
seen. -/
def chainLoop (publicKey : Option P.PublicKey) :
    Option PyValue → List PyValue → List PyValue → Except PyErr Bool
  | _, _, [] => .ok true
  | prev, seen, rec :: records => do
      if verify P rec publicKey then
        let id ← rec.getItem "correctionId"
        if seen.any id.pyEq then return false
        else if ← linked P prev rec then
          chainLoop publicKey (some rec) (id :: seen) records
        else return false
      else return false

/-- The dict of a checkpoint: length, first and last digest. -/
def describe (records : List PyValue) : Except PyErr PyValue :=
  match records.head?, records.getLast? with
  | some first, some last => do
      let genesis ← canonicalJson first >>= fun data => (hashObject P data).getItem "digest"
      let head ← canonicalJson last >>= fun data => (hashObject P data).getItem "digest"
      return dictOf [("length", .int records.length), ("genesis", genesis), ("head", head)]
  | _, _ => builtinError .IndexError

/-- `type(v) is int`. -/
def isInt : PyValue → Bool
  | .int _ => true
  | _ => false

/-- The checkpoint check of `verify_chain`. -/
def matchesCheckpoint (records : List PyValue) (publicKey : Option P.PublicKey)
    (checkpoint : PyValue) : Except PyErr Bool :=
  match checkpoint with
  | .none => .ok true
  | _ =>
      if publicKey.isNone then .ok false
      else if !checkpoint.isDict then .ok false
      else do
        let length ← checkpoint.getMethod "length" .none
        if isInt length then
          let expected ← describe P records
          return checkpoint.pyEq expected
        else return false

/-- The body of the `try` in `verify_chain`. -/
def verifyChainBody (records : PyValue) (publicKey : Option P.PublicKey) (checkpoint : PyValue) :
    Except PyErr Bool :=
  match records with
  | .list (rec :: recs) => do
      if ← chainLoop P publicKey none [] (rec :: recs) then
        matchesCheckpoint P (rec :: recs) publicKey checkpoint
      else return false
  | _ => .ok false

/-- `verify_chain`.  An absent checkpoint is `None`. -/
def verifyChain (records : PyValue) (publicKey : Option P.PublicKey) (checkpoint : PyValue) :
    Bool :=
  match verifyChainBody P records publicKey checkpoint with
  | .ok b => b
  | .error _ => false

/-- `chain_checkpoint`. -/
def chainCheckpoint (records : PyValue) : Except PyErr PyValue :=
  if verifyChain P records none .none then
    match records with
    | .list rs => describe P rs
    | _ => builtinError .TypeError
  else raise .ValueError "invalid correction chain"

/-! ## Chains are histories -/

/-- The identifier of a record. -/
def recordId (record : PyValue) : PyStr :=
  match record.getItem "correctionId" with
  | .ok (.str id) => id
  | _ => []

/-- What `verify_chain` asks of records. -/
def rules (publicKey : Option P.PublicKey) : Rules PyValue PyStr where
  ok r := verify P r publicKey = true
  id := recordId
  first r := linked P none r = .ok true
  next p r := linked P (some p) r = .ok true

theorem recordId_eq {items : Items} {id : PyStr} {agent sigMeta : Items}
    (h : Shape items id agent sigMeta) :
    (PyValue.dict items).getItem "correctionId" = .ok (.str id) ∧
      recordId (.dict items) = id := by
  have hid : (PyValue.dict items).getItem "correctionId" = .ok (.str id) :=
    PyValue.getItem_eq_ok.mpr ⟨_, rfl, h.id_eq⟩
  exact ⟨hid, by rw [recordId, hid]⟩

theorem any_pyEq_str {id : PyStr} {seen : List PyStr} :
    (seen.map PyValue.str).any (PyValue.str id).pyEq = true ↔ id ∈ seen := by
  rw [List.any_map, List.any_eq_true]
  simp [PyValue.pyEq]

/-- The loop checks that the records continue a history. -/
theorem chainLoop_eq_true {publicKey : Option P.PublicKey} {prev : Option PyValue}
    {seen : List PyStr} {records : List PyValue} :
    chainLoop P publicKey prev (seen.map .str) records = .ok true ↔
      Continues (rules P publicKey) prev seen records := by
  induction records generalizing prev seen with
  | nil => simp [chainLoop, Continues]
  | cons rec records ih =>
      rw [chainLoop, Continues]
      cases hver : verify P rec publicKey with
      | false => simp [rules, hver, pure, Except.pure]
      | true =>
          obtain ⟨items, id, agent, sigMeta, k, sig, data, rfl, hv, _⟩ := (verify_iff P).mp hver
          obtain ⟨hid, hid'⟩ := recordId_eq hv.toShape
          rw [if_pos rfl, hid]
          have hafter : (rules P publicKey).after prev (.dict items) ↔
              linked P prev (.dict items) = .ok true := by
            cases prev <;> rfl
          have hok : (rules P publicKey).ok (.dict items) := hver
          have hrid : (rules P publicKey).id (.dict items) = id := hid'
          rw [hafter, hrid]
          by_cases hseen : id ∈ seen
          · rw [bind_eq_ok]
            simp [any_pyEq_str.mpr hseen, hseen, pure, Except.pure]
          · have hany := Bool.eq_false_iff.mpr (mt any_pyEq_str.mp hseen)
            rw [bind_eq_ok, ← ih, List.map_cons]
            simp only [Except.ok.injEq, exists_eq_left', hany, Bool.false_eq_true, if_false, hok,
              hseen, not_false_eq_true, true_and, bind_eq_ok]
            constructor
            · rintro ⟨b, hb, h⟩
              cases b with
              | true => exact ⟨hb, h⟩
              | false => cases h
            · rintro ⟨hb, h⟩
              exact ⟨true, hb, h⟩

/-- Without a checkpoint the chains are the histories of verified records. -/
theorem verifyChain_iff {records : List PyValue} {publicKey : Option P.PublicKey}
    {checkpoint : PyValue} :
    verifyChain P (.list records) publicKey checkpoint = true ↔
      History (rules P publicKey) records ∧
        matchesCheckpoint P records publicKey checkpoint = .ok true := by
  rw [Linear.history_iff, ← chainLoop_eq_true, verifyChain, List.map_nil]
  cases records with
  | nil => simp [verifyChainBody]
  | cons rec records =>
      rw [verifyChainBody]
      cases hl : chainLoop P publicKey none [] (rec :: records) with
      | error e => simp [bind, Except.bind]
      | ok b =>
          cases b with
          | false => simp [bind, Except.bind, pure, Except.pure]
          | true =>
              simp only [bind, Except.bind, if_true, ne_eq, reduceCtorEq, not_false_eq_true,
                true_and]
              cases matchesCheckpoint P (rec :: records) publicKey checkpoint with
              | error e => simp
              | ok b => simp

/-! ## Links -/

/-- What a record says of the one it supersedes. -/
structure Supersedes (items sup : Items) (id : PyStr) (digest : PyValue) : Prop where
  sup_eq : getStr "supersedes" items = some (.dict sup)
  receiptId_eq : getStr "receiptId" sup = some (.str id)
  digest_eq : (getStr "digest" sup).getD .none = digest

theorem linked_none {items : Items} :
    linked P none (.dict items) = .ok true ↔ getStr "supersedes" items = none := by
  rw [linked, PyValue.contains]
  cases getStr "supersedes" items with
  | none => simp [Except.map]
  | some w => simp [Except.map]

/-- A record follows the one whose identifier and digest it names. -/
theorem linked_some {p : PyValue} {items : Items} {id : PyStr}
    (hid : p.getItem "correctionId" = .ok (.str id)) :
    linked P (some p) (.dict items) = .ok true ↔
      ∃ sup digest data, Supersedes items sup id digest ∧ canonicalJson p = .ok data ∧
        digest.pyEq (hashObject P data) = true := by
  rw [linked]
  constructor
  · intro h
    obtain ⟨sup, hsup, h⟩ := bind_eq_ok.mp h
    obtain ⟨_, he, hsup⟩ := PyValue.getMethod_eq_ok.mp hsup
    cases he
    obtain ⟨receiptId, hget, h⟩ := bind_eq_ok.mp h
    obtain ⟨sup, rfl, hreceipt⟩ := PyValue.getMethod_eq_ok.mp hget
    rw [hid] at h
    obtain ⟨_, he, h⟩ := bind_eq_ok.mp h
    cases he
    split at h
    next heq =>
      obtain ⟨digest, hdigest, h⟩ := bind_eq_ok.mp h
      obtain ⟨_, he, hdigest⟩ := PyValue.getMethod_eq_ok.mp hdigest
      cases he
      obtain ⟨data, hdata, h⟩ := bind_eq_ok.mp h
      rw [PyValue.pyEq_str_iff] at heq
      -- the defaults are no strings, so both members are there
      have hreceiptId : getStr "receiptId" sup = some (.str id) := by
        cases hr : getStr "receiptId" sup with
        | none => rw [hr, Option.getD_none] at hreceipt; rw [← hreceipt] at heq; cases heq
        | some r => rw [hr, Option.getD_some] at hreceipt; rw [hreceipt, heq]
      have hsupersedes : getStr "supersedes" items = some (.dict sup) := by
        cases hs : getStr "supersedes" items with
        | none =>
            rw [hs, Option.getD_none] at hsup
            cases hsup
            cases hreceiptId
        | some r => rw [hs, Option.getD_some] at hsup; rw [hsup]
      exact ⟨sup, digest, data, ⟨hsupersedes, hreceiptId, hdigest⟩, hdata, Except.ok.inj h⟩
    next => cases h
  · rintro ⟨sup, digest, data, hs, hdata, heq⟩
    refine bind_eq_ok.mpr ⟨.dict sup, PyValue.getMethod_eq_ok.mpr ⟨_, rfl, by rw [hs.sup_eq]; rfl⟩,
      bind_eq_ok.mpr ⟨.str id, PyValue.getMethod_eq_ok.mpr
        ⟨_, rfl, by rw [hs.receiptId_eq]; rfl⟩, bind_eq_ok.mpr ⟨.str id, hid, ?_⟩⟩⟩
    rw [PyValue.pyEq_str_iff.mpr rfl, if_pos rfl]
    exact bind_eq_ok.mpr ⟨digest, PyValue.getMethod_eq_ok.mpr ⟨_, rfl, hs.digest_eq⟩,
      bind_eq_ok.mpr ⟨data, hdata, congrArg Except.ok heq⟩⟩

/-- The identifier a record says it supersedes. -/
def predecessor (record : PyValue) : Option PyStr :=
  match record.getItem "supersedes" >>= fun sup => sup.getItem "receiptId" with
  | .ok (.str id) => some id
  | _ => none

theorem predecessor_of_first {publicKey : Option P.PublicKey} (a : PyValue)
    (ha : (rules P publicKey).ok a) (h : (rules P publicKey).first a) : predecessor a = none := by
  obtain ⟨items, _, _, _, _, _, _, rfl, _⟩ := (verify_iff P).mp ha
  rw [predecessor, PyValue.getItem, (linked_none P).mp h]
  rfl

theorem predecessor_of_next {publicKey : Option P.PublicKey} (a b : PyValue)
    (ha : (rules P publicKey).ok a) (hb : (rules P publicKey).ok b)
    (h : (rules P publicKey).next a b) :
    predecessor b = some ((rules P publicKey).id a) := by
  obtain ⟨_, _, _, _, _, _, _, rfl, hv, _⟩ := (verify_iff P).mp ha
  obtain ⟨items, _, _, _, _, _, _, rfl, _⟩ := (verify_iff P).mp hb
  obtain ⟨hid, hid'⟩ := recordId_eq hv.toShape
  obtain ⟨sup, digest, data, hs, _⟩ := (linked_some P hid).mp h
  have hpred : ((PyValue.dict items).getItem "supersedes" >>= fun sup => sup.getItem "receiptId") =
      .ok (.str (recordId (.dict _))) :=
    bind_eq_ok.mpr ⟨_, PyValue.getItem_eq_ok.mpr ⟨_, rfl, hs.sup_eq⟩,
      PyValue.getItem_eq_ok.mpr ⟨_, rfl, hid' ▸ hs.receiptId_eq⟩⟩
  rw [predecessor, hpred]
  rfl

/-- From the records of a chain, only its prefixes form a chain. -/
theorem verifyChain_subset {A B : List PyValue} {publicKey : Option P.PublicKey}
    (hA : verifyChain P (.list A) publicKey .none = true) (hsub : ∀ b ∈ B, b ∈ A) :
    verifyChain P (.list B) publicKey .none = true ↔ B ≠ [] ∧ B <+: A := by
  rw [verifyChain_iff] at hA ⊢
  constructor
  · rintro ⟨hB, _⟩
    exact ⟨hB.ne_nil,
      hA.1.prefix_of_subset (predecessor_of_first P) (predecessor_of_next P) hB hsub⟩
  · rintro ⟨hne, hpre⟩
    exact ⟨hA.1.initial hne hpre, rfl⟩

namespace Vector

/-- The two vectors are a chain. -/
theorem verifyChain_vectors :
    verifyChain platform (.list [action, correction]) (some publicKey) .none = true := by
  refine (verifyChain_iff platform).mpr ⟨⟨List.cons_ne_nil _ _, ?_, by decide +kernel, ?_, ?_⟩, rfl⟩
  · exact List.forall_mem_cons.mpr
      ⟨verify_action, List.forall_mem_singleton.mpr verify_correction⟩
  · rintro a ha
    cases ha
    exact (show linked platform none action = .ok true by decide +kernel)
  · exact List.isChain_cons_cons.mpr
      ⟨show linked platform (some action) correction = .ok true by decide +kernel, .singleton _⟩

end Vector

theorem verifyChain_subset_vectors :
    verifyChain Vector.platform (.list [Vector.correction]) (some Vector.publicKey) .none = true ↔
      [Vector.correction] ≠ [] ∧ [Vector.correction] <+: [Vector.action, Vector.correction] :=
  verifyChain_subset Vector.platform Vector.verifyChain_vectors (by simp)

end Corrlog
