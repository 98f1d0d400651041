import Corrlog.Adapters.Sessions
import Corrlog.Core.Ledger
import Corrlog.Standalone.Main

/-!
# Auditing a session

The records of a session go to a JSONL file.  An auditor reads the file, writes some of
its records to files of their own and runs the standalone verifier on them, with `--chain`
and the key of the operator.

For each record of the file there is one list of records of the file, in their order, that
ends with it and for which the verifier ends with 0 (`session_audit`).
-/

namespace Corrlog.Sessions

open Python
open Machine
open Adapters
open CrewAI (State)
open Linear (Grown History)
open Rfc8785 (Implements implements_canonicalJson)
open Standalone (Loaded Written given holding_of_wire)

variable {P : Platform}

/-- A command line that verifies these records as a chain under the key.  Each is in a file
of its own, in either wire form. -/
structure Exported (files : PyStr → Option Bytes) (publicKey : P.PublicKey)
    (args : Standalone.Args) (records : List PyObject) : Prop where
  chain : args.chain = true
  checkpoint : given args.checkpoint = none
  key : ∃ path, given args.key = some path ∧ Written files path
    (dictOf [("publicKey", .str (ofChars (publicKeyB64url P publicKey)))])
  records : List.Forall₂ (fun path (r : PyObject) => ∃ b, Wire r.val b ∧ files path = some b)
    args.files records

/-- For verified records the verifier says what the core says of the chain. -/
theorem Exported.code_eq_zero_iff {dumps : PyValue → Except PyErr Bytes}
    (hdumps : Implements dumps) {files : PyStr → Option Bytes} {pk : P.PublicKey}
    {args : Standalone.Args} {records : List PyObject} (h : Exported files pk args records)
    (hok : ∀ r ∈ records, verify P r.val (some pk) = true) :
    (Standalone.main P dumps files args).code = 0 ↔
      verifyChain P (pyList records) (some pk) .none = true := by
  have hj : ∀ r ∈ records, r.val.JsonAble := fun r hr =>
    jsonAble_of_verify P r.wf (hok r hr)
  obtain ⟨B, hB, hmap⟩ := holding_of_wire hj h.records
  have hok' : ∀ r ∈ records.map PyObject.val, verify P r (some pk) = true :=
    List.forall_mem_map.mpr hok
  have halike : List.Forall₂ Alike (records.map PyObject.val) (B.map PyObject.val) := by
    refine forall₂_alike_of_map_eq P hok' ?_
    rwa [List.map_map, List.map_map]
  obtain ⟨path, hpath, hkey⟩ := h.key
  have hloaded : Loaded P files args (some pk) none (B.map PyObject.val) := by
    refine ⟨fun hc => ?_, ?_, ?_, List.forall₂_map_right_iff.mpr hB⟩
    · rw [h.checkpoint] at hc
      cases hc
    · rw [Standalone.loadOption, hpath]
      exact congrArg (Option.map some) (Standalone.loadPubFromFile_written hkey)
    · rw [Standalone.loadOption, h.checkpoint]
  rw [Standalone.code_eq_zero_iff hdumps, pyList, verifyChain_congr P (some pk) .none halike]
  constructor
  · rintro ⟨_, _, _, hl, _, hchain⟩
    obtain ⟨rfl, rfl, rfl⟩ := hloaded.unique hl
    exact hchain h.chain
  · intro hchain
    exact ⟨_, _, _, hloaded, ((verifyChain_iff P).mp hchain).1.ok, fun _ => hchain⟩

/-- A verified record and what is read back of it. -/
theorem alike_of_verify {v : PyValue} (hwf : v.WF) {publicKey : Option P.PublicKey}
    (h : verify P v publicKey = true) : Alike v (listed v) :=
  let ⟨_, hb⟩ := canonicalJson_of_verify P h
  alike_listed hwf hb

/-- What is read back from a file to which a forest was written is a forest. -/
theorem forest_listed {publicKey : Option P.PublicKey} {l : List PyValue} (hwf : ∀ v ∈ l, v.WF)
    (h : Grown (rules P publicKey) l) (hids : (l.map recordId).Nodup) :
    ∀ r ∈ l.map listed, ∃ earlier : List PyValue, (earlier ++ [r]).Sublist (l.map listed) ∧
      History (rules P publicKey) (earlier ++ [r]) ∧
      ∀ other : List PyValue, other ++ [r] ⊆ l.map listed →
        History (rules P publicKey) (other ++ [r]) → other = earlier := by
  have halike {v : PyValue} (hv : v ∈ l) : Alike v (listed v) :=
    alike_of_verify (hwf v hv) (h.ok v hv)
  have hids' : ((l.map listed).map recordId).Nodup := by
    have hmap : (l.map listed).map recordId = l.map recordId := by
      rw [List.map_map]
      refine List.map_congr_left fun v hv => ?_
      exact (recordId_of_same P (h.ok v hv) (halike hv).right_wf
        ((halike hv).same P (h.ok v hv))).symm
    rwa [hmap]
  intro r hr
  obtain ⟨v, hv, rfl⟩ := List.mem_map.mp hr
  obtain ⟨p, hsub, hist⟩ := h.exists_history hids v hv
  have hmap : (p ++ [v]).map listed = p.map listed ++ [listed v] := by
    rw [List.map_append, List.map_singleton]
  have hist' : History (rules P publicKey) (p.map listed ++ [listed v]) := by
    rw [← hmap]
    refine history_of_alike P ?_ hist
    rw [List.forall₂_map_right_iff, List.forall₂_same]
    exact fun w hw => halike (hsub.subset hw)
  have hsub' : (p.map listed ++ [listed v]).Sublist (l.map listed) := hmap ▸ hsub.map listed
  refine ⟨p.map listed, hsub', hist', fun other hother hist'' => ?_⟩
  exact hist''.eq_of_last (predecessor_of_first P) (predecessor_of_next P) hids' hother
    hsub'.subset hist'

/-- The name of a file. -/
def fileName (i : ℕ) : PyStr := ofChars (List.replicate (i + 1) 'r')

/-- The files of these names to which values were written. -/
def filesOf (values : List PyValue) (path : PyStr) : Option Bytes :=
  values[path.length - 1]?.bind fun v => (Python.dumps [' '] v).toOption.map utf8

theorem written_filesOf {values : List PyValue} {i : ℕ} {v : PyValue} (hv : values[i]? = some v)
    (hwf : v.WF) (hj : v.JsonAble) : Written (filesOf values) (fileName i) v := by
  obtain ⟨t, ht, _⟩ := reads_dumps Decoder.default_plain isWs_space hwf hj
  refine ⟨t, ht, ?_⟩
  have hlen : (fileName i).length - 1 = i := by simp [fileName, ofChars]
  rw [filesOf, hlen, hv, Option.bind_some, ht]
  rfl

/-- A command line for so many files, and one for the key. -/
def exportArgs {n : ℕ} (hn : n ≠ 0) : Standalone.Args where
  files := (List.range n).map fun i => fileName (i + 1)
  files_ne := by simpa using hn
  trust := .key (fileName 0)
  chain := true
  checkpoint := none

/-- Any records can be exported. -/
theorem exists_exported {publicKey : P.PublicKey} {records : List PyObject} (hne : records ≠ [])
    (hj : ∀ r ∈ records, r.val.JsonAble) :
    ∃ files args, Exported files publicKey args records := by
  refine ⟨filesOf (dictOf [("publicKey", .str (ofChars (publicKeyB64url P publicKey)))] ::
    records.map PyObject.val), exportArgs (mt List.length_eq_zero_iff.mp hne), rfl, rfl,
    ⟨fileName 0, rfl, written_filesOf rfl ?_ ?_⟩, ?_⟩
  · rw [dictOf, PyValue.wf_members]
    simp
  · exact PyValue.jsonAble_members.mpr (List.forall_mem_singleton.mpr (noSurrogates_ofChars _))
  · refine List.forall₂_iff_get.mpr ⟨by simp [exportArgs], fun i _ hi => ?_⟩
    have hv {key : PyValue} : (key :: records.map PyObject.val)[i + 1]? =
        some (records.get ⟨i, hi⟩).val := by simp [hi]
    obtain ⟨t, ht, hfile⟩ :=
      written_filesOf hv (records.get ⟨i, hi⟩).wf (hj _ (List.get_mem _ _))
    refine ⟨_, .dumps ht, ?_⟩
    simpa [exportArgs] using hfile

section

variable {ι : Type} {lower : PyStr → PyStr} {crew : Adapter P}

/-- What is read back of a sink verifies as before. -/
theorem Trail.verify_listed {log : List (ι × List PyValue)} {s : State} (h : Trail crew log s) :
    ∀ r ∈ s.sink.map listed, r.WF ∧ verify P r (some (P.publicKey crew.privateKey)) = true := by
  refine List.forall_mem_map.mpr fun v hv => ?_
  have hver : verify P v (some (P.publicKey crew.privateKey)) = true := h.grown.ok v hv
  have halike : Alike v (listed v) := alike_of_verify (h.wf v hv) hver
  refine ⟨halike.right_wf, ?_⟩
  rw [halike.verify_eq]
  exact hver

variable [DecidableEq ι]

/-- The sink of a session can be appended to any readable file.  Of what is read back of it
(tuples as lists), each record is the last one of one list, in the order of the file, for
which the standalone verifier ends with 0.  These are lists of its records under the key of
the operator; what files they are in and in what wire form does not matter. -/
theorem session_audit {dumps : PyValue → Except PyErr Bytes} (hdumps : Implements dumps)
    (hsign : ∀ data, P.verify (P.publicKey crew.privateKey) (P.sign crew.privateKey data) data =
      true) {uses : ι → {use : Use P // use.SignsWith crew.privateKey}}
    {log : List (ι × List PyValue)} {s : Pool ι State (Task P)}
    (h : Run (sessions lower crew uses) log s) (hids : (s.shared.sink.map recordId).Nodup)
    {file : Option Bytes} {before : List PyValue} {n : ℕ} (hall : all file = .ok (before, n)) :
    ∃ file', appendAll file s.shared.sink = .ok file' ∧
      all file' = .ok (before ++ s.shared.sink.map listed, n) ∧
      ∀ r ∈ s.shared.sink.map listed, ∃ earlier : List PyValue,
        (earlier ++ [r]).Sublist (s.shared.sink.map listed) ∧
        ∀ files args (records : List PyObject),
          Exported files (P.publicKey crew.privateKey) args records →
          (∀ a ∈ records, a.val ∈ s.shared.sink.map listed) →
          (records.map PyObject.val).getLast? = some r →
            ((Standalone.main P dumps files args).code = 0 ↔
              records.map PyObject.val = earlier ++ [r]) := by
  have htrail := trail_run hsign h
  have hok := htrail.grown.ok
  obtain ⟨objects, hobjects⟩ := Standalone.exists_objects htrail.wf
  have hrec : ∀ r ∈ objects, r.val.isDict = true ∧ ∃ b, canonicalJson r.val = .ok b := by
    intro r hr
    have hver := hok r.val (hobjects ▸ List.mem_map_of_mem hr)
    obtain ⟨_, _, _, _, _, _, _, hdict, _⟩ := (verify_iff P).mp hver
    exact ⟨hdict ▸ rfl, canonicalJson_of_verify P hver⟩
  obtain ⟨file', happ, hall'⟩ := all_appendAll hrec hall
  refine ⟨file', hobjects ▸ happ, ?_, fun r hr => ?_⟩
  · rw [hall', hobjects, List.map_map]
    rfl
  obtain ⟨earlier, hsub, hist, huniq⟩ := forest_listed htrail.wf htrail.grown hids r hr
  refine ⟨earlier, hsub, fun files args records hexp hmem hlast => ?_⟩
  rw [hexp.code_eq_zero_iff hdumps fun a ha => (htrail.verify_listed _ (hmem a ha)).2, pyList]
  obtain ⟨other, hother⟩ := List.getLast?_eq_some_iff.mp hlast
  rw [hother]
  constructor
  · intro hchain
    have hsubset : other ++ [r] ⊆ s.shared.sink.map listed := by
      rw [← hother]
      exact List.forall_mem_map.mpr hmem
    rw [huniq other hsubset ((verifyChain_iff P).mp hchain).1]
  · rintro heq
    rw [heq]
    exact (verifyChain_iff P).mpr ⟨hist, rfl⟩

end

/-- Two calls that overlap, of which one times out, and the file of their three records. -/
theorem session_audit_sample : ∃ o o' o'' : PyObject,
    ∃ s : Pool Bool State (Task Adapters.Sample.platform),
    Run (sessions id Adapters.Sample.adapter Sample.uses)
      [(false, [o.val]), (true, [o'.val]), (false, [o''.val]), (true, [])] s ∧
      (∃ file, appendAll none s.shared.sink = .ok file ∧
        all file = .ok ([listed o.val, listed o'.val, listed o''.val], 0)) ∧
      ∀ r ∈ s.shared.sink.map listed, ∃ files args, ∃ records : List PyObject,
        (records.map PyObject.val).getLast? = some r ∧
        (Standalone.main Adapters.Sample.platform canonicalJson files args).code = 0 := by
  obtain ⟨o, o', o'', s, h, hsink, hids⟩ := Sample.exists_run
  have hverify := (trail_run Adapters.Sample.platform_verify h).verify_listed
  have hnone : all none = .ok ([], 0) := rfl
  obtain ⟨file, happ, hall, haudit⟩ := session_audit implements_canonicalJson
    Adapters.Sample.platform_verify h hids hnone
  refine ⟨o, o', o'', s, h, ⟨file, happ, ?_⟩, fun r hr => ?_⟩
  · rw [hall, hsink]
    rfl
  obtain ⟨earlier, hsub, hmain⟩ := haudit r hr
  obtain ⟨records, hrecords⟩ := Standalone.exists_objects fun v hv =>
    (hverify v (hsub.subset hv)).1
  have hmem : ∀ a ∈ records, a.val ∈ s.shared.sink.map listed := fun a ha =>
    hsub.subset (hrecords ▸ List.mem_map_of_mem ha)
  have hlast : (records.map PyObject.val).getLast? = some r := by
    rw [← hrecords, List.getLast?_concat]
  have hne : records ≠ [] := by
    rintro rfl
    cases hlast
  obtain ⟨files, args, hexp⟩ := exists_exported hne fun a ha =>
    jsonAble_of_verify Adapters.Sample.platform a.wf (hverify a.val (hmem a ha)).2
  exact ⟨files, args, records, hlast, (hmain files args records hexp hmem hlast).mpr hrecords.symm⟩

end Corrlog.Sessions
