import Corrlog.Core.Chain
import Corrlog.Machine.Run
import Mathlib.Logic.Function.Basic

/-!
# Admission

`ReplayGuard` admits a correction identifier at most once.  Its state is one
SQLite file, which any number of guards share, also after a restart.  An `accept`
call copies and verifies the record (`freeze`) and then makes one insert
(`transaction`).  Between these two steps other calls take theirs and callers
change their records, so the guards are a machine (`guards`) whose runs are the
interleavings.

The invariant of its runs (`Admission`) ties the answers to the rows, and the
rows to the frozen records they are made of.  From it follows what a run admits
(`at_most_once`).
-/

namespace Corrlog

open Python
open Machine (System Steps Run)

variable (P : Platform)

/-! ## The table -/

/-- A row of `admitted`. -/
structure Row where
  id : PyStr
  record : Bytes

/-- The table `admitted`.  Its primary key is `id`. -/
structure Table where
  rows : List Row
  unique : (rows.map Row.id).Nodup

namespace Table

/-- A table without rows. -/
def empty : Table := ⟨[], List.nodup_nil⟩

/-- The identifiers that have been admitted. -/
def ids (table : Table) : List PyStr := table.rows.map Row.id

/-- One more row, with a new key. -/
def concat (table : Table) (row : Row) (h : row.id ∉ table.ids) : Table where
  rows := table.rows ++ [row]
  unique := by
    rw [List.map_append, List.map_singleton, ← List.concat_eq_append]
    exact List.Nodup.concat h table.unique

end Table

/-- The rows of a file, none without the table. -/
def storedRows : Option Table → List Row
  | some table => table.rows
  | none => []

/-- `CREATE TABLE IF NOT EXISTS admitted`. -/
def createTable (db : Option Table) : Option Table := some (db.getD .empty)

/-- `INSERT INTO admitted(id, record) VALUES (?, ?)`.  A text is bound as UTF-8.
The identifier of a verified record is a text, and no other value is bound here. -/
def insertRow (db : Option Table) (id : PyValue) (data : Bytes) : Except PyErr Table :=
  match db, id with
  | some table, .str s =>
      if noSurrogates s then
        if h : s ∉ table.ids then .ok (table.concat ⟨s, data⟩ h)
        else builtinError .IntegrityError
      else builtinError .UnicodeError
  | _, _ => builtinError .OperationalError

/-! ## The code -/

/-- What `accept` has in hand after its `try`: the copy and its canonical bytes. -/
structure Frozen where
  record : PyObject
  publicKey : Option P.PublicKey
  data : Bytes

/-- The `try` of `accept`, which answers `False` if there is no result. -/
def freeze (record : PyObject) (publicKey : Option P.PublicKey) : Option (Frozen P) :=
  if verifyTrusted P record.val publicKey then
    match canonicalJson record.val with
    | .ok data => some ⟨record, publicKey, data⟩
    | .error _ => none
  else none

/-- The answer to an insert and the table it leaves. -/
def answer (db : Option Table) : Except PyErr Table → Except PyErr (Bool × Option Table)
  | .ok table => .ok (true, some table)
  | .error e => if e.exc = .IntegrityError then .ok (false, db) else .error e

/-- The transaction of `accept`. -/
def transaction (db : Option Table) (f : Frozen P) : Except PyErr (Bool × Option Table) := do
  let id ← f.record.val.getItem "correctionId"
  answer db (insertRow db id f.data)

/-! ## The machine -/

/-- The file, the number of guards made over it, the objects of the callers, and
the calls between their two steps. -/
structure GuardState where
  db : Option Table
  guards : ℕ
  objects : ℕ → PyObject
  calls : ℕ → Option (Frozen P)

/-- What is seen of a step.  An answer is seen with the frozen record. -/
inductive GuardEvent
  | opened
  | mutated
  | frozen
  | answered (record : PyObject) (publicKey : Option P.PublicKey) (answer : Bool)
  | lost

/-- The steps of the guards and their callers. -/
inductive GuardStep : GuardState P → GuardEvent P → GuardState P → Prop
  /-- `ReplayGuard(path)`. -/
  | opened (s : GuardState P) :
      GuardStep s .opened { s with db := createTable s.db, guards := s.guards + 1 }
  /-- A caller changes one of its objects. -/
  | mutated (s : GuardState P) (a : ℕ) (v : PyObject) :
      GuardStep s .mutated { s with objects := Function.update s.objects a v }
  /-- The `try` of a call with the object `a`. -/
  | frozen {s : GuardState P} {a c : ℕ} {publicKey : Option P.PublicKey} {f : Frozen P} :
      0 < s.guards → s.calls c = none → freeze P (s.objects a) publicKey = some f →
      GuardStep s .frozen { s with calls := Function.update s.calls c (some f) }
  | refused {s : GuardState P} {a : ℕ} {publicKey : Option P.PublicKey} :
      0 < s.guards → freeze P (s.objects a) publicKey = none →
      GuardStep s (.answered (s.objects a) publicKey false) s
  /-- The transaction of a call. -/
  | inserted {s : GuardState P} {c : ℕ} {f : Frozen P} {answer : Bool} {db : Option Table} :
      s.calls c = some f → transaction P s.db f = .ok (answer, db) →
      GuardStep s (.answered f.record f.publicKey answer)
        { s with db := db, calls := Function.update s.calls c none }
  /-- A process ends after the transaction and before the answer. -/
  | unanswered {s : GuardState P} {c : ℕ} {f : Frozen P} {answer : Bool} {db : Option Table} :
      s.calls c = some f → transaction P s.db f = .ok (answer, db) →
      GuardStep s .lost { s with db := db, calls := Function.update s.calls c none }
  /-- A process ends before the transaction, or SQLite raises in it. -/
  | lost (s : GuardState P) (c : ℕ) :
      GuardStep s .lost { s with calls := Function.update s.calls c none }

/-- The guards over one file, which is new at first. -/
def guards : System (GuardState P) (GuardEvent P) where
  init s := s.db = none ∧ s.guards = 0 ∧ ∀ c, s.calls c = none
  step := GuardStep P

/-- The identifier for which a call returns `True`. -/
def GuardEvent.admitted {P : Platform} : GuardEvent P → Option PyStr
  | .answered record _ true => some (recordId record.val)
  | _ => none

/-- The identifiers for which a call returned `True`. -/
def admitted {P : Platform} (log : List (GuardEvent P)) : List PyStr :=
  log.filterMap GuardEvent.admitted

/-! ## What the steps do -/

variable {P}

theorem freeze_eq_some {record : PyObject} {publicKey : Option P.PublicKey} {f : Frozen P} :
    freeze P record publicKey = some f ↔
      f.record = record ∧ f.publicKey = publicKey ∧ verifyTrusted P record.val publicKey = true ∧
        canonicalJson record.val = .ok f.data := by
  rw [freeze]
  constructor
  · intro h
    split at h
    next hver =>
      split at h
      next hdata =>
        cases h
        exact ⟨rfl, rfl, hver, hdata⟩
      next => cases h
    next => cases h
  · rintro ⟨rfl, rfl, hver, hdata⟩
    rw [if_pos hver, hdata]

/-- What is looked up in a verified record is what `recordId` finds, and has a
UTF-8 form. -/
theorem recordId_of_verifyTrusted {record : PyValue} {publicKey : Option P.PublicKey}
    (hwf : record.WF) (h : verifyTrusted P record publicKey = true) :
    record.getItem "correctionId" = .ok (.str (recordId record)) ∧
      noSurrogates (recordId record) = true ∧ ∃ data, canonicalJson record = .ok data := by
  rw [verifyTrusted, Bool.and_eq_true, verify_iff] at h
  obtain ⟨_, items, id, _, _, _, _, _, rfl, hv, _⟩ := h
  obtain ⟨hid, hid'⟩ := recordId_eq hv.toShape
  have hdata := ((validateRecord_eq_ok P).mp hv.accepted).2
  have hj := (jsonAble_iff_canonicalJson hwf).mpr hdata
  rw [hid']
  exact ⟨hid, (PyValue.jsonAble_str id).mp (PyValue.jsonAble_of_getKey hj hv.id_eq), hdata⟩

theorem freeze_eq_none {record : PyObject} {publicKey : Option P.PublicKey} :
    freeze P record publicKey = none ↔ verifyTrusted P record.val publicKey = false := by
  rw [freeze]
  cases hver : verifyTrusted P record.val publicKey with
  | false => exact iff_of_true rfl rfl
  | true =>
      obtain ⟨_, _, data, hdata⟩ := recordId_of_verifyTrusted record.wf hver
      rw [if_pos rfl, hdata]
      exact iff_of_false (nomatch ·) (nomatch ·)

/-- A frozen record: what `freeze` made of it. -/
def IsFrozen (f : Frozen P) : Prop := freeze P f.record f.publicKey = some f

theorem isFrozen_of_freeze {record : PyObject} {publicKey : Option P.PublicKey} {f : Frozen P}
    (h : freeze P record publicKey = some f) : IsFrozen f := by
  obtain ⟨hr, hk, _⟩ := freeze_eq_some.mp h
  rw [IsFrozen, hr, hk]
  exact h

/-- The row of a frozen record. -/
def Frozen.row (f : Frozen P) : Row := ⟨recordId f.record.val, f.data⟩

/-- The transaction adds the row of the frozen record, unless there is one with
its identifier. -/
theorem transaction_eq {f : Frozen P} (hf : IsFrozen f) (table : Table) :
    transaction P (some table) f =
      if h : f.row.id ∉ table.ids then .ok (true, some (table.concat f.row h))
      else .ok (false, some table) := by
  obtain ⟨_, _, hver, _⟩ := freeze_eq_some.mp hf
  obtain ⟨hid, hs, _⟩ := recordId_of_verifyTrusted f.record.wf hver
  rw [transaction, hid]
  show answer _ (insertRow _ (.str f.row.id) _) = _
  rw [insertRow, Frozen.row, if_pos hs]
  split
  · rfl
  · rfl

theorem transaction_none {f : Frozen P} (hf : IsFrozen f) :
    transaction P none f = builtinError .OperationalError := by
  obtain ⟨_, _, hver, _⟩ := freeze_eq_some.mp hf
  obtain ⟨hid, _, _⟩ := recordId_of_verifyTrusted f.record.wf hver
  rw [transaction, hid]
  rfl

/-- A transaction that does not raise was made on a table, and leaves one. -/
theorem transaction_cases {f : Frozen P} (hf : IsFrozen f) {db db' : Option Table} {b : Bool}
    (h : transaction P db f = .ok (b, db')) :
    (∃ table, db' = some table) ∧
      ((b = true ∧ f.row.id ∉ (storedRows db).map Row.id ∧
          storedRows db' = storedRows db ++ [f.row]) ∨
        (b = false ∧ f.row.id ∈ (storedRows db).map Row.id ∧ db' = db)) := by
  cases db with
  | none =>
      rw [transaction_none hf] at h
      cases h
  | some table =>
      rw [transaction_eq hf] at h
      split at h
      next hnew =>
        cases h
        exact ⟨⟨_, rfl⟩, .inl ⟨rfl, hnew, rfl⟩⟩
      next hold =>
        cases h
        exact ⟨⟨_, rfl⟩, .inr ⟨rfl, not_not.mp hold, rfl⟩⟩

/-- The calls between their two steps have frozen records, and without the table
there are no calls and no guards. -/
structure Ready (s : GuardState P) : Prop where
  calls : ∀ c f, s.calls c = some f → IsFrozen f
  file : s.db = none → s.guards = 0 ∧ ∀ c, s.calls c = none

/-- A step leaves the rows or adds the row of a frozen record under a new
identifier, and only then may it be seen to admit it. -/
theorem GuardStep.rows {s t : GuardState P} {e : GuardEvent P} (h : GuardStep P s e t)
    (hs : Ready s) :
    (storedRows t.db = storedRows s.db ∧ e.admitted = none) ∨
      ∃ f : Frozen P, IsFrozen f ∧ f.row.id ∉ (storedRows s.db).map Row.id ∧
        storedRows t.db = storedRows s.db ++ [f.row] ∧ ∀ id ∈ e.admitted, id = f.row.id := by
  cases h with
  | opened =>
      refine .inl ⟨?_, rfl⟩
      cases s.db <;> rfl
  | mutated a v => exact .inl ⟨rfl, rfl⟩
  | frozen => exact .inl ⟨rfl, rfl⟩
  | refused => exact .inl ⟨rfl, rfl⟩
  | inserted hc ht =>
      have hf := hs.calls _ _ hc
      rcases (transaction_cases hf ht).2 with ⟨rfl, hnew, hrows⟩ | ⟨rfl, _, rfl⟩
      · exact .inr ⟨_, hf, hnew, hrows, fun id hid => (Option.some.inj hid).symm⟩
      · exact .inl ⟨rfl, rfl⟩
  | unanswered hc ht =>
      have hf := hs.calls _ _ hc
      rcases (transaction_cases hf ht).2 with ⟨_, hnew, hrows⟩ | ⟨_, _, rfl⟩
      · exact .inr ⟨_, hf, hnew, hrows, fun id hid => nomatch hid⟩
      · exact .inl ⟨rfl, rfl⟩
  | lost c => exact .inl ⟨rfl, rfl⟩

theorem GuardStep.ready {s t : GuardState P} {e : GuardEvent P} (h : GuardStep P s e t)
    (hs : Ready s) : Ready t := by
  have hupdate {c : ℕ} {f? : Option (Frozen P)} (hf : ∀ f ∈ f?, IsFrozen f) :
      ∀ c' f, Function.update s.calls c f? c' = some f → IsFrozen f := by
    intro c' f hc'
    rw [Function.update_apply] at hc'
    split at hc'
    · exact hf f hc'
    · exact hs.calls c' f hc'
  cases h with
  | opened => exact ⟨hs.calls, fun hdb => nomatch hdb⟩
  | mutated a v => exact ⟨hs.calls, hs.file⟩
  | frozen hg _ hf =>
      refine ⟨hupdate fun f' hf' => Option.some.inj hf' ▸ isFrozen_of_freeze hf, fun hdb => ?_⟩
      exact absurd (hs.file hdb).1 (Nat.pos_iff_ne_zero.mp hg)
  | refused => exact hs
  | inserted hc ht =>
      obtain ⟨table, rfl⟩ := (transaction_cases (hs.calls _ _ hc) ht).1
      exact ⟨hupdate fun _ hf' => (nomatch hf'), fun hdb => nomatch hdb⟩
  | unanswered hc ht =>
      obtain ⟨table, rfl⟩ := (transaction_cases (hs.calls _ _ hc) ht).1
      exact ⟨hupdate fun _ hf' => (nomatch hf'), fun hdb => nomatch hdb⟩
  | lost c =>
      refine ⟨hupdate fun _ hf' => (nomatch hf'), fun hdb => ⟨(hs.file hdb).1, fun c' => ?_⟩⟩
      dsimp only
      rw [Function.update_apply, (hs.file hdb).2, ite_self]

/-- A call answers `True` for a verified record whose identifier is in no row. -/
theorem GuardStep.answer_iff {s t : GuardState P} {record : PyObject}
    {publicKey : Option P.PublicKey} {b : Bool}
    (h : GuardStep P s (.answered record publicKey b) t) (hs : Ready s) :
    (b = true ↔ verifyTrusted P record.val publicKey = true ∧
      ∀ row ∈ storedRows s.db, row.id ≠ recordId record.val) ∧
    (b = false → t.db = s.db) := by
  cases h with
  | refused _ hnone =>
      rw [freeze_eq_none] at hnone
      rw [hnone]
      exact ⟨iff_of_false (nomatch ·) (fun h => nomatch h.1), fun _ => rfl⟩
  | inserted hc ht =>
      have hf := hs.calls _ _ hc
      have hver := (freeze_eq_some.mp hf).2.2.1
      rcases (transaction_cases hf ht).2 with ⟨rfl, hnew, _⟩ | ⟨rfl, hold, hdb⟩
      · refine ⟨iff_of_true rfl ⟨hver, fun row hrow hid => hnew ?_⟩, fun h => nomatch h⟩
        exact List.mem_map.mpr ⟨row, hrow, hid⟩
      · obtain ⟨row, hrow, hid⟩ := List.mem_map.mp hold
        exact ⟨iff_of_false (nomatch ·) fun h => h.2 row hrow hid, fun _ => hdb⟩

/-! ## Runs -/

/-- What holds after each run. -/
structure Admission (log : List (GuardEvent P)) (s : GuardState P) : Prop where
  ready : Ready s
  rows : ∀ row ∈ storedRows s.db, ∃ f : Frozen P, IsFrozen f ∧ f.row = row
  unique : ((storedRows s.db).map Row.id).Nodup
  answers : (admitted log).Sublist ((storedRows s.db).map Row.id)

theorem Admission.step {log : List (GuardEvent P)} {s t : GuardState P} {e : GuardEvent P}
    (hs : Admission log s) (h : GuardStep P s e t) : Admission (log ++ [e]) t := by
  have hlog : admitted (log ++ [e]) = admitted log ++ e.admitted.toList := by
    rw [admitted, List.filterMap_append]
    cases h : e.admitted <;> simp [admitted, h]
  have hready := h.ready hs.ready
  rcases h.rows hs.ready with ⟨hrows, he⟩ | ⟨f, hf, hnew, hrows, he⟩
  · rw [he, Option.toList_none, List.append_nil] at hlog
    exact ⟨hready, hrows ▸ hs.rows, hrows ▸ hs.unique, hlog ▸ hrows ▸ hs.answers⟩
  · refine ⟨hready, ?_, ?_, ?_⟩
    · rw [hrows, List.forall_mem_append]
      exact ⟨hs.rows, fun row hrow => ⟨f, hf, (List.mem_singleton.mp hrow).symm⟩⟩
    · rw [hrows, List.map_append, List.map_singleton, ← List.concat_eq_append]
      exact hs.unique.concat hnew
    · rw [hlog, hrows, List.map_append]
      refine hs.answers.append ?_
      cases ha : e.admitted with
      | none => exact List.nil_sublist _
      | some id =>
          rw [he id ha]
          exact List.Sublist.refl _

theorem admission {log : List (GuardEvent P)} {s : GuardState P} (h : Run (guards P) log s) :
    Admission log s := by
  refine h.invariant (fun s hs => ?_) fun _ _ _ _ hs hstep => hs.step hstep
  obtain ⟨hdb, hguards, hcalls⟩ := hs
  refine ⟨⟨fun c f hc => ?_, fun _ => ⟨hguards, hcalls⟩⟩, ?_, ?_, List.nil_sublist _⟩
  · rw [hcalls c] at hc
    cases hc
  · rw [hdb]
    exact fun row hrow => absurd hrow List.not_mem_nil
  · rw [hdb]
    exact List.nodup_nil

/-- Rows are only added, at the end. -/
theorem rows_grow {log log' : List (GuardEvent P)} {s t : GuardState P}
    (h : Run (guards P) log s) (h' : Steps (guards P) s log' t) :
    storedRows s.db <+: storedRows t.db := by
  refine h.rel (r := fun s t => storedRows s.db <+: storedRows t.db)
    (fun _ => List.prefix_rfl) (fun _ _ _ => List.IsPrefix.trans) (fun _ _ _ _ h hstep => ?_) h'
  rcases hstep.rows (admission h).ready with ⟨hrows, _⟩ | ⟨f, _, _, hrows, _⟩
  · rw [hrows]
  · rw [hrows]
    exact List.prefix_append _ _

/-- A call that has frozen its record can be answered. -/
theorem exists_answer {log : List (GuardEvent P)} {s : GuardState P} (h : Run (guards P) log s)
    {c : ℕ} {f : Frozen P} (hc : s.calls c = some f) :
    ∃ b t, GuardStep P s (.answered f.record f.publicKey b) t := by
  have hready := (admission h).ready
  cases hdb : s.db with
  | none =>
      rw [(hready.file hdb).2 c] at hc
      cases hc
  | some table =>
      have ht := transaction_eq (hready.calls c f hc) table
      rw [← hdb] at ht
      by_cases hnew : f.row.id ∉ table.ids
      · rw [dif_pos hnew] at ht
        exact ⟨_, _, .inserted hc ht⟩
      · rw [dif_neg hnew] at ht
        exact ⟨_, _, .inserted hc ht⟩

/-- The identifier in the bytes of a row is its key. -/
theorem read_row {f : Frozen P} (hf : IsFrozen f) :
    ∃ v, loadsBytes .default f.row.record = some v ∧
      v.getItem "correctionId" = .ok (.str f.row.id) := by
  obtain ⟨_, _, hver, hdata⟩ := freeze_eq_some.mp hf
  obtain ⟨hid, _, _⟩ := recordId_of_verifyTrusted f.record.wf hver
  have hj := (jsonAble_iff_canonicalJson f.record.wf).mpr ⟨_, hdata⟩
  obtain ⟨w, hw, hwf, hs, _⟩ :=
    wire_read Decoder.default_plain f.record.wf hj (.canonical hdata)
  obtain ⟨items, hi, hget⟩ := PyValue.getItem_eq_ok.mp hid
  rw [hi] at hs
  obtain ⟨items', rfl⟩ := PyValue.exists_dict_of_isDict (PyValue.isDict_of_same hs).symm
  obtain ⟨_, hu, he⟩ := PyValue.exists_getStr_of_same hwf hs hget
  cases he
  exact ⟨_, hw, PyValue.getItem_eq_ok.mpr ⟨_, rfl, hu⟩⟩

namespace Vector

/-- `action.json`, frozen. -/
def frozenAction : Frozen platform := ⟨⟨action, action_wf⟩, some publicKey, bytes action⟩

theorem isFrozen_action : IsFrozen frozenAction :=
  freeze_eq_some.mpr ⟨rfl, rfl, by decide +kernel, by decide +kernel⟩

/-- A guard is made, an `accept` call freezes `action.json`, its caller changes
the object, and the call answers `True`. -/
def admissionLog : List (GuardEvent platform) :=
  [.opened, .frozen, .mutated, .answered frozenAction.record (some publicKey) true]

theorem admissionLog_run :
    ∃ s, Run (guards platform) admissionLog s ∧ storedRows s.db = [frozenAction.row] := by
  let s₀ : GuardState platform := ⟨none, 0, fun _ => frozenAction.record, fun _ => none⟩
  have h₀ : Run (guards platform) [] s₀ := .start ⟨rfl, rfl, fun _ => rfl⟩
  have h₁ := h₀.tail (.opened _)
  have h₂ := h₁.tail (.frozen (a := 0) (c := 0) (Nat.succ_pos _) rfl isFrozen_action)
  have h₃ := h₂.tail (.mutated _ 0 .none)
  have ht := transaction_eq isFrozen_action .empty
  rw [dif_pos (show frozenAction.row.id ∉ Table.empty.ids from List.not_mem_nil)] at ht
  exact ⟨_, h₃.tail (.inserted (c := 0) rfl ht), rfl⟩

end Vector

/-- After any run of the guards over one file, with `s` the state reached:

* no identifier was admitted twice, and none of a row is admitted later;
* a call answers `True` for a verified record whose identifier is in no row, and
  answers that way or the other; answering `False` it leaves the table;
* rows stay;
* a row has the canonical bytes of a verified record with its identifier. -/
theorem at_most_once {log : List (GuardEvent P)} {s : GuardState P} (h : Run (guards P) log s) :
    (admitted log).Nodup ∧
    (∀ record publicKey b t, GuardStep P s (.answered record publicKey b) t →
      (b = true ↔ verifyTrusted P record.val publicKey = true ∧
        ∀ row ∈ storedRows s.db, row.id ≠ recordId record.val) ∧
      (b = false → t.db = s.db)) ∧
    (∀ c f, s.calls c = some f → ∃ b t, GuardStep P s (.answered f.record f.publicKey b) t) ∧
    (∀ log' t, Steps (guards P) s log' t → storedRows s.db <+: storedRows t.db ∧
      ∀ row ∈ storedRows s.db, row.id ∉ admitted log') ∧
    ∀ row ∈ storedRows s.db, ∃ record publicKey v,
      verifyTrusted P (PyObject.val record) publicKey = true ∧
      canonicalJson record.val = .ok row.record ∧ loadsBytes .default row.record = some v ∧
      v.getItem "correctionId" = .ok (.str row.id) := by
  have hs := admission h
  refine ⟨hs.unique.sublist hs.answers, fun _ _ _ _ hstep => hstep.answer_iff hs.ready,
    fun _ _ hc => exists_answer h hc,
    fun log' t h' => ⟨rows_grow h h', fun row hrow hadm => ?_⟩, fun row hrow => ?_⟩
  · -- the later step finds the row
    obtain ⟨e, he, hid⟩ := List.mem_filterMap.mp hadm
    obtain ⟨before, after, rfl⟩ := List.append_of_mem he
    obtain ⟨u, v, hb, hstep, _⟩ := h'.at_label
    have hrow' := (rows_grow h hb).subset hrow
    rcases GuardStep.rows hstep (admission (h.trans hb)).ready with ⟨_, hnone⟩ | ⟨f, _, hnew, _, hf⟩
    · rw [hid] at hnone
      cases hnone
    · exact hnew (List.mem_map.mpr ⟨row, hrow', hf _ hid⟩)
  · obtain ⟨f, hf, rfl⟩ := hs.rows row hrow
    obtain ⟨_, _, hver, hdata⟩ := freeze_eq_some.mp hf
    obtain ⟨v, hv, hid⟩ := read_row hf
    exact ⟨f.record, f.publicKey, v, hver, hdata, hv, hid⟩

theorem at_most_once_vectors :
    ∃ s, Run (guards Vector.platform) Vector.admissionLog s ∧
      storedRows s.db = [Vector.frozenAction.row] ∧
      ∀ log' t, Steps (guards Vector.platform) s log' t →
        Vector.frozenAction.row.id ∉ admitted log' := by
  obtain ⟨s, h, hrows⟩ := Vector.admissionLog_run
  refine ⟨s, h, hrows, fun log' t h' => ?_⟩
  exact ((at_most_once h).2.2.2.1 log' t h').2 _ (hrows ▸ List.mem_singleton_self _)

end Corrlog
