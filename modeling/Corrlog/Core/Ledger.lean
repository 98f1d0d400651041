import Corrlog.Core.Accepts
import Corrlog.Core.Checkpoint
import Corrlog.Core.Entries
import Corrlog.Core.Memory

/-!
# Records in a file

What has canonical bytes is read back from the file with the same bytes
(`all_append_signed`).  A file that is only appended to thus keeps every record with
its verdict, and a chain written to it, after whatever else it holds, is read back as
a chain with the same verdicts and the same checkpoint (`persisted_chain`).
-/

namespace Corrlog

open Python

/-- `for r in records: sink.append(r)`. -/
def appendAll (file : Option Bytes) (records : List PyValue) : Except PyErr (Option Bytes) :=
  records.foldlM append file

/-- What `json.loads` makes of the text of a value with canonical bytes. -/
theorem reloaded_of_jsonAble {v : PyValue} (hwf : v.WF) (hj : v.JsonAble) :
    reloaded v = listed v := by
  obtain ⟨t, ht, hr⟩ := reads_dumps Decoder.default_plain isWs_nil hwf hj
  have h := (reads_dumps_reloaded isWs_nil ht).loads
  rw [hr.loads] at h
  exact (Option.some.inj h).symm

theorem alike_listed {v : PyValue} (hwf : v.WF) {b : Bytes} (hb : canonicalJson v = .ok b) :
    Alike v (listed v) := by
  have hj := (jsonAble_iff_canonicalJson hwf).mpr ⟨b, hb⟩
  have hcanon := canonicalJson_of_same hwf hj (wf_listed hwf) (same_listed hj)
  exact ⟨hwf, wf_listed hwf, Or.inr ⟨b, hb, hcanon.trans hb⟩⟩

theorem getItem_listed {v w : PyValue} {k : String} (h : v.getItem k = .ok w) :
    (listed v).getItem k = .ok (listed w) := by
  obtain ⟨items, rfl, hw⟩ := PyValue.getItem_eq_ok.mp h
  rw [listed_dict]
  refine PyValue.getItem_eq_ok.mpr ⟨_, rfl, ?_⟩
  rw [getStr, getKey_map]
  exact congrArg (Option.map listed) hw

theorem entry_listed {v w : PyValue} {k1 k2 : String} (h : entry v k1 k2 = .ok w) :
    entry (listed v) k1 k2 = .ok (listed w) := by
  obtain ⟨u, hu, hw⟩ := bind_eq_ok.mp h
  exact bind_eq_ok.mpr ⟨_, getItem_listed hu, getItem_listed hw⟩

/-- A value with canonical bytes can be written. -/
theorem exists_recordLine {r : PyValue} (hwf : r.WF) {b : Bytes} (hb : canonicalJson r = .ok b) :
    ∃ line, recordLine r = .ok line := by
  obtain ⟨t, ht, _⟩ := reads_dumps Decoder.default_plain isWs_nil hwf
    ((jsonAble_iff_canonicalJson hwf).mpr ⟨b, hb⟩)
  exact ⟨_, by rw [recordLine, ht]; rfl⟩

/-- A dict with canonical bytes is appended and read back. -/
theorem all_append_signed {file : Option Bytes} {before : List PyValue} {n : ℕ}
    (h : all file = .ok (before, n)) {r : PyValue} (hwf : r.WF) (hd : r.isDict = true) {b : Bytes}
    (hb : canonicalJson r = .ok b) :
    ∃ file', append file r = .ok file' ∧ all file' = .ok (before ++ [listed r], n) := by
  have hj := (jsonAble_iff_canonicalJson hwf).mpr ⟨b, hb⟩
  obtain ⟨line, hline⟩ := exists_recordLine hwf hb
  refine ⟨_, by rw [append, addedBytes, hline]; rfl, ?_⟩
  rw [all_append h hd hline, reloaded_of_jsonAble hwf hj]

/-- A record that a constructor returned is a dict with canonical bytes. -/
theorem Call.canonical {P : Platform} {privateKey : P.PrivateKey} {c : Call} {r : PyValue}
    (h : (c.outcome privateKey).result = .ok r) :
    r.isDict = true ∧ ∃ b, canonicalJson r = .ok b := by
  obtain ⟨_, _, _, _, _, _, _, _, _, rfl, hvalid⟩ := c.returned h
  exact ⟨rfl, ((validateRecord_eq_ok P).mp hvalid).2⟩

variable {P : Platform}

theorem Alike.verify_eq {v w : PyValue} (h : Alike v w) (publicKey : Option P.PublicKey) :
    verify P w publicKey = verify P v publicKey := by
  rw [Bool.eq_iff_iff]
  constructor
  · intro hw
    exact verify_of_same P h.right_wf h.left_wf (h.symm.same P hw) hw
  · intro hv
    exact verify_of_same P h.left_wf h.right_wf (h.same P hv) hv

/-- Dicts with canonical bytes are appended one after the other and read back in this
order. -/
theorem all_appendAll {records : List PyObject}
    (hrec : ∀ r ∈ records, r.val.isDict = true ∧ ∃ b, canonicalJson r.val = .ok b)
    {file : Option Bytes} {before : List PyValue} {n : ℕ} (h : all file = .ok (before, n)) :
    ∃ file', appendAll file (records.map PyObject.val) = .ok file' ∧
      all file' = .ok (before ++ records.map fun r => listed r.val, n) := by
  induction records generalizing file before with
  | nil => exact ⟨file, rfl, by rw [List.map_nil, List.append_nil]; exact h⟩
  | cons r records ih =>
      obtain ⟨⟨hd, b, hb⟩, hrec⟩ := List.forall_mem_cons.mp hrec
      obtain ⟨file₁, happ, hall⟩ := all_append_signed h r.wf hd hb
      obtain ⟨file', happs, hall'⟩ := ih hrec hall
      refine ⟨file', ?_, ?_⟩
      · rw [appendAll, List.map_cons, List.foldlM_cons, happ]
        exact happs
      · rw [hall', List.append_assoc]
        rfl

/-- Whatever a readable file holds, a chain appended to it is read back after that, and
every record of it, the whole chain and any part of it under any key and checkpoint
get the verdict they had before, and the same checkpoint. -/
theorem persisted_chain {file : Option Bytes} {before : List PyValue} {n : ℕ}
    (h : all file = .ok (before, n)) {records : List PyObject}
    (hrec : ∀ r ∈ records, r.val.isDict = true ∧ ∃ b, canonicalJson r.val = .ok b) :
    ∃ file' read, appendAll file (records.map PyObject.val) = .ok file' ∧
      all file' = .ok (before ++ read, n) ∧
      List.Forall₂ (fun (r : PyObject) v => ∀ publicKey, verify P v publicKey =
        verify P r.val publicKey) records read ∧
      ∀ i j, (∀ publicKey checkpoint,
          verifyChain P (.list ((read.drop i).take j)) publicKey checkpoint =
            verifyChain P (pyList ((records.drop i).take j)) publicKey checkpoint) ∧
        chainCheckpoint P (.list ((read.drop i).take j)) =
          chainCheckpoint P (pyList ((records.drop i).take j)) := by
  obtain ⟨file', happ, hall⟩ := all_appendAll hrec h
  have halike {r : PyObject} (hr : r ∈ records) : Alike r.val (listed r.val) :=
    let ⟨_, _, hb⟩ := hrec r hr
    alike_listed r.wf hb
  refine ⟨file', _, happ, hall, ?_, fun i j => ?_⟩
  · rw [List.forall₂_map_right_iff, List.forall₂_same]
    exact fun r hr publicKey => (halike hr).verify_eq publicKey
  · have hpart : List.Forall₂ Alike (((records.drop i).take j).map PyObject.val)
        (((records.map fun r => listed r.val).drop i).take j) := by
      rw [← List.map_drop, ← List.map_take, List.forall₂_map_left_iff, List.forall₂_map_right_iff,
        List.forall₂_same]
      exact fun r hr => halike (List.mem_of_mem_drop (List.mem_of_mem_take hr))
    exact ⟨fun publicKey checkpoint => (verifyChain_congr P publicKey checkpoint hpart).symm,
      (chainCheckpoint_congr P hpart).symm⟩

theorem persisted_chain_vectors : ∃ file' read,
    appendAll none (Vector.records.map PyObject.val) = .ok file' ∧ all file' = .ok (read, 0) ∧
      verifyChain Vector.platform (.list read) (some Vector.publicKey) .none = true := by
  have hdict : ∀ r ∈ Vector.records, r.val.isDict = true :=
    List.forall_mem_cons.mpr ⟨rfl, List.forall_mem_singleton.mpr rfl⟩
  have hrec : ∀ r ∈ Vector.records, r.val.isDict = true ∧ ∃ b, canonicalJson r.val = .ok b :=
    fun r hr => ⟨hdict r hr, _, Vector.canonicalJson_records r hr⟩
  have hnone : all none = .ok ([], 0) := rfl
  obtain ⟨file', read, happ, hall, hread, hpart⟩ :=
    persisted_chain (P := Vector.platform) hnone hrec
  have hlen : read.length = 2 := hread.length_eq.symm
  have hchain := (hpart 0 2).1 (some Vector.publicKey) .none
  rw [List.drop_zero, List.take_of_length_le hlen.le] at hchain
  exact ⟨file', read, happ, hall, hchain.trans Vector.verifyChain_vectors⟩

end Corrlog
