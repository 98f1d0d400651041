import Corrlog.Core.Alike

/-!
# Checkpoints

A checkpoint holds the length of a chain and the digests of its ends.  It binds
every record between them as well: each one names the digest of the record
before it, so that equal last records have equal predecessors, down to the first
(`checkpoint_binds`).
-/

namespace Corrlog

open Python
open Linear (History keys_eq_of_getLast?)

variable (P : Platform)

/-! ## The dict of a checkpoint -/

/-- The text of a digest. -/
def digestText (data : Bytes) : PyStr := ofChars (b64url (P.sha256 data))

/-- A checkpoint. -/
def checkpointDict (length : ℕ) (genesis head : PyStr) : PyValue :=
  dictOf [("length", .int length), ("genesis", .str genesis), ("head", .str head)]

/-- Checkpoints are compared by their members. -/
theorem pyEq_checkpointDict_iff {n m : ℕ} {a b c d : PyStr} :
    (checkpointDict n a b).pyEq (checkpointDict m c d) = true ↔ n = m ∧ a = c ∧ b = d := by
  rw [checkpointDict, checkpointDict, PyValue.pyEq_dictOf_iff]
  simp [List.lookup_cons, List.lookup_nil]

/-- A list is described by its length and the digests of its first and last record. -/
theorem describe_eq_ok {records : List PyValue} {first last : PyValue} {b c : Bytes}
    (hfirst : records.head? = some first) (hlast : records.getLast? = some last)
    (hb : canonicalJson first = .ok b) (hc : canonicalJson last = .ok c) :
    describe P records =
      .ok (checkpointDict records.length (digestText P b) (digestText P c)) := by
  rw [describe, hfirst, hlast]
  dsimp only
  refine bind_eq_ok.mpr ⟨.str (digestText P b), bind_eq_ok.mpr ⟨b, hb, hashObject_getItem P b⟩,
    bind_eq_ok.mpr ⟨.str (digestText P c), bind_eq_ok.mpr ⟨c, hc, hashObject_getItem P c⟩, rfl⟩⟩

/-- A chain has a checkpoint, made of its length and the digests of its ends. -/
theorem describe_of_history {records : List PyValue} {publicKey : Option P.PublicKey}
    (h : History (rules P publicKey) records) :
    ∃ first last b c, records.head? = some first ∧ records.getLast? = some last ∧
      canonicalJson first = .ok b ∧ canonicalJson last = .ok c ∧
      describe P records =
        .ok (checkpointDict records.length (digestText P b) (digestText P c)) := by
  cases hfirst : records.head? with
  | none => exact absurd (List.head?_eq_none_iff.mp hfirst) h.ne_nil
  | some first =>
      cases hlast : records.getLast? with
      | none => exact absurd (List.getLast?_eq_none_iff.mp hlast) h.ne_nil
      | some last =>
          obtain ⟨b, hb⟩ := canonicalJson_of_verify P (h.ok first (List.mem_of_head? hfirst))
          obtain ⟨c, hc⟩ := canonicalJson_of_verify P (h.ok last (List.mem_of_getLast? hlast))
          exact ⟨first, last, b, c, rfl, rfl, hb, hc, describe_eq_ok P hfirst hlast hb hc⟩

/-- A list matches exactly the checkpoint that describes it. -/
theorem matchesCheckpoint_iff {records : List PyValue} {pk : P.PublicKey} {n m : ℕ}
    {a b c d : PyStr} (h : describe P records = .ok (checkpointDict m c d)) :
    matchesCheckpoint P records (some pk) (checkpointDict n a b) = .ok true ↔
      n = m ∧ a = c ∧ b = d := by
  have hlength : (checkpointDict n a b).getMethod "length" .none = .ok (.int n) :=
    PyValue.getMethod_eq_ok.mpr ⟨_, rfl, by rw [getStr_members]; rfl⟩
  have hdict : (checkpointDict n a b).isDict = true := rfl
  rw [← pyEq_checkpointDict_iff, matchesCheckpoint.eq_def]
  split
  next heq => cases heq
  next =>
    rw [hdict, hlength, h]
    simp [bind, Except.bind, isInt, pure, Except.pure]

/-- A record with a verified key is verified without one. -/
theorem verify_none {v : PyValue} {publicKey : Option P.PublicKey}
    (h : verify P v publicKey = true) : verify P v none = true := by
  obtain ⟨items, id, agent, sigMeta, k, sig, data, rfl, hv, _⟩ := (verify_iff P).mp h
  exact (verify_iff P).mpr
    ⟨items, id, agent, sigMeta, k, sig, data, rfl, hv, fun _ hk => nomatch hk⟩

/-- A chain under a key is one without a pinned key. -/
theorem history_none {records : List PyValue} {publicKey : Option P.PublicKey}
    (h : History (rules P publicKey) records) : History (rules P none) records :=
  ⟨h.ne_nil, fun a ha => verify_none P (h.ok a ha), h.nodup, h.first, h.next⟩

/-- For a chain the checkpoint describes it. -/
theorem chainCheckpoint_eq {records : List PyValue} {publicKey : Option P.PublicKey}
    (h : History (rules P publicKey) records) :
    chainCheckpoint P (.list records) = describe P records := by
  rw [chainCheckpoint, (verifyChain_iff P).mpr ⟨history_none P h, rfl⟩, if_pos rfl]

/-! ## Binding -/

/-- Records with the same bytes supersede records with the same bytes, unless two
of these have one digest. -/
theorem canonicalJson_eq_of_linked {a b a' b' : PyValue} {publicKey : Option P.PublicKey}
    (ha : verify P a publicKey = true) (ha' : verify P a' publicKey = true)
    (hb : verify P b publicKey = true) (hbb : Alike b b') (hl : linked P (some a) b = .ok true)
    (hl' : linked P (some a') b' = .ok true)
    (hcoll : ∀ x y, canonicalJson a = .ok x → canonicalJson a' = .ok y →
      P.sha256 x = P.sha256 y → x = y) : canonicalJson a = canonicalJson a' := by
  have hbs := hbb.same P hb
  obtain ⟨_, _, _, _, _, _, _, rfl, hav, _⟩ := (verify_iff P).mp ha
  obtain ⟨_, _, _, _, _, _, _, rfl, hav', _⟩ := (verify_iff P).mp ha'
  obtain ⟨items, _, _, _, _, _, _, rfl, _⟩ := (verify_iff P).mp hb
  obtain ⟨items', rfl⟩ := PyValue.exists_dict_of_isDict (PyValue.isDict_of_same hbs).symm
  obtain ⟨sup, digest, x, hs, hx, hd⟩ := (linked_some P (recordId_eq hav.toShape).1).mp hl
  obtain ⟨sup', digest', y, hs', hy, hd'⟩ := (linked_some P (recordId_eq hav'.toShape).1).mp hl'
  obtain ⟨sup'', digest'', hs'', hsame, hwd, hwd''⟩ :=
    supersedes_of_same hbb.left_wf hbb.right_wf hbs hs
  have hsup : sup'' = sup' := by
    have h := hs''.sup_eq
    rw [hs'.sup_eq, Option.some.injEq, PyValue.dict.injEq] at h
    exact h.symm
  have hdigest : digest'' = digest' := by rw [← hs''.digest_eq, ← hs'.digest_eq, hsup]
  rw [pyEq_hashObject_iff P hwd] at hd
  rw [← hdigest, pyEq_hashObject_iff P hwd''] at hd'
  -- both digest objects are the same as what the records say
  have hsha := sha256_eq_of_same P (PyValue.same_trans
    (PyValue.same_symm (hashObject_wf P x) hd) (PyValue.same_trans hsame hd'))
  rw [hx, hy, hcoll x y hx hy hsha]

/-- Chains of one length whose last records have one digest have the same bytes
throughout. -/
theorem map_canonicalJson_of_history {A B : List PyObject} {publicKey : Option P.PublicKey}
    (hA : History (rules P publicKey) (A.map PyObject.val))
    (hB : History (rules P publicKey) (B.map PyObject.val)) (hlen : A.length = B.length)
    (hcoll : ∀ a ∈ A, ∀ b ∈ B, ∀ x y, canonicalJson a.val = .ok x → canonicalJson b.val = .ok y →
      P.sha256 x = P.sha256 y → x = y)
    (hlast : (A.map PyObject.val).getLast?.map canonicalJson =
      (B.map PyObject.val).getLast?.map canonicalJson) :
    (A.map PyObject.val).map canonicalJson = (B.map PyObject.val).map canonicalJson := by
  refine keys_eq_of_getLast? hA.next hB.next ?_ (by simpa using hlen) hlast
  intro a ha b hb a' ha' b' hb' hab hab' hkey
  have hva := hA.ok a ha
  have hvb := hA.ok b hb
  have hva' := hB.ok a' ha'
  obtain ⟨a, hamem, rfl⟩ := List.mem_map.mp ha
  obtain ⟨b, _, rfl⟩ := List.mem_map.mp hb
  obtain ⟨a', hamem', rfl⟩ := List.mem_map.mp ha'
  obtain ⟨b', _, rfl⟩ := List.mem_map.mp hb'
  obtain ⟨x, hx⟩ := canonicalJson_of_verify P hvb
  exact canonicalJson_eq_of_linked P hva hva' hvb ⟨b.wf, b'.wf, Or.inr ⟨x, hx, hkey ▸ hx⟩⟩ hab hab'
    (hcoll a hamem a' hamem')

/-- Lists with the same canonical bytes are alike record by record. -/
theorem forall₂_alike_of_map_eq {A B : List PyObject} {publicKey : Option P.PublicKey}
    (hA : ∀ a ∈ A.map PyObject.val, verify P a publicKey = true)
    (h : (A.map PyObject.val).map canonicalJson = (B.map PyObject.val).map canonicalJson) :
    List.Forall₂ Alike (A.map PyObject.val) (B.map PyObject.val) := by
  induction A generalizing B with
  | nil =>
      cases B with
      | nil => exact .nil
      | cons b B => cases h
  | cons a A ih =>
      cases B with
      | nil => cases h
      | cons b B =>
          obtain ⟨hab, h⟩ := List.cons.inj h
          obtain ⟨ha, hA⟩ := List.forall_mem_cons.mp hA
          obtain ⟨x, hx⟩ := canonicalJson_of_verify P ha
          exact .cons ⟨a.wf, b.wf, Or.inr ⟨x, hx, hab ▸ hx⟩⟩ (ih hA h)

theorem map_canonicalJson_iff {A B : List PyObject} :
    (A.map PyObject.val).map canonicalJson = (B.map PyObject.val).map canonicalJson ↔
      B.length = A.length ∧ ∀ i (hb : i < B.length) (ha : i < A.length),
        canonicalJson B[i].val = canonicalJson A[i].val := by
  rw [List.ext_getElem_iff]
  simp only [List.length_map, List.getElem_map]
  constructor
  · rintro ⟨hlen, h⟩
    exact ⟨hlen.symm, fun i hb ha => (h i ha hb).symm⟩
  · rintro ⟨hlen, h⟩
    exact ⟨hlen.symm, fun i ha hb => (h i hb ha).symm⟩

/-- With the checkpoint of a chain, exactly the lists of records with its bytes
are accepted, whoever made them, unless two records have one digest. -/
theorem checkpoint_binds {A : List PyObject} {pk : P.PublicKey}
    (hA : verifyChain P (pyList A) (some pk) .none = true) :
    ∃ checkpoint, chainCheckpoint P (pyList A) = .ok checkpoint ∧
      ∀ B : List PyObject,
        (∀ a ∈ A, ∀ b ∈ B, ∀ x y, canonicalJson a.val = .ok x → canonicalJson b.val = .ok y →
          P.sha256 x = P.sha256 y → x = y) →
        (verifyChain P (pyList B) (some pk) checkpoint = true ↔
          B.length = A.length ∧ ∀ i (hb : i < B.length) (ha : i < A.length),
            canonicalJson B[i].val = canonicalJson A[i].val) := by
  have hist := ((verifyChain_iff P).mp hA).1
  obtain ⟨first, last, x, y, hfirst, hlast, hx, hy, hdesc⟩ := describe_of_history P hist
  refine ⟨_, (chainCheckpoint_eq P hist).trans hdesc, fun B hcoll => ?_⟩
  rw [← map_canonicalJson_iff]
  constructor
  · intro hB
    obtain ⟨histB, hmatch⟩ := (verifyChain_iff P).mp hB
    obtain ⟨first', last', x', y', hfirst', hlast', hx', hy', hdesc'⟩ := describe_of_history P histB
    obtain ⟨hlen, _, hhead⟩ := (matchesCheckpoint_iff P hdesc').mp hmatch
    rw [List.length_map, List.length_map] at hlen
    have hsha : P.sha256 y = P.sha256 y' := b64url_injective (ofChars_injective hhead)
    refine map_canonicalJson_of_history P hist histB hlen hcoll ?_
    rw [hlast, hlast', Option.map_some, Option.map_some, hy, hy']
    obtain ⟨a, ha, rfl⟩ := List.mem_map.mp (List.mem_of_getLast? hlast)
    obtain ⟨b, hb, rfl⟩ := List.mem_map.mp (List.mem_of_getLast? hlast')
    rw [hcoll a ha b hb y y' hy hy' hsha]
  · intro hmap
    have hself : matchesCheckpoint P _ (some pk) _ = .ok true :=
      (matchesCheckpoint_iff P hdesc).mpr ⟨rfl, rfl, rfl⟩
    exact verifyChain_of_alike P (forall₂_alike_of_map_eq P hist.ok hmap)
      ((verifyChain_iff P).mpr ⟨hist, hself⟩)

namespace Vector

/-- The two vectors as objects. -/
def records : List PyObject := [⟨action, action_wf⟩, ⟨correction, correction_wf⟩]

/-- The vectors have canonical bytes. -/
theorem canonicalJson_records : ∀ r ∈ records, canonicalJson r.val = .ok (bytes r.val) := by
  refine List.forall_mem_cons.mpr ⟨?_, List.forall_mem_singleton.mpr ?_⟩ <;> decide +kernel

/-- Their digests are distinct. -/
theorem sha256_records : (records.map fun r => sha256 (bytes r.val)).Nodup := by decide +kernel

end Vector

/-- The checkpoint of the vectors is met by the vectors. -/
theorem checkpoint_binds_vectors :
    ∃ checkpoint, chainCheckpoint Vector.platform (pyList Vector.records) = .ok checkpoint ∧
      verifyChain Vector.platform (pyList Vector.records) (some Vector.publicKey) checkpoint =
        true := by
  obtain ⟨checkpoint, hc, h⟩ := checkpoint_binds Vector.platform (A := Vector.records)
    Vector.verifyChain_vectors
  refine ⟨checkpoint, hc, (h Vector.records fun a ha b hb x y hx hy hsha => ?_).mpr
    ⟨rfl, fun _ _ _ => rfl⟩⟩
  rw [Vector.canonicalJson_records a ha, Except.ok.injEq] at hx
  rw [Vector.canonicalJson_records b hb, Except.ok.injEq] at hy
  subst hx hy
  rw [List.inj_on_of_nodup_map Vector.sha256_records ha hb hsha]

end Corrlog
