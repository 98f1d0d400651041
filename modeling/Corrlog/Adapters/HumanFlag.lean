import Corrlog.Adapters.Calls
import Corrlog.Adapters.ClaudeCode
import Corrlog.Core.Domain
import Corrlog.Core.Forks
import Corrlog.Core.Ledger

/-!
# Flagged records

What `human-flag` does once the record has been found.  It ends with 0 exactly if the
record can be corrected and the texts of the command line can be signed; otherwise it
raises, and the file is as it was (`human_flag_corrects`).

The file then holds one more record, which verifies under the key, and extends each
chain that ends with the flagged record, whatever else the file holds.
-/

namespace Corrlog.ClaudeCode

open Python
open Linear (history_concat)

variable {P : Platform} {privateKey : P.PrivateKey} {env : Env} {agentId : PyStr}
  {file : Option Bytes} {a : FlagArgs} {prior : PyObject}

/-- The texts of the command line can be signed. -/
structure FlagTexts (agentId : PyStr) (a : FlagArgs) : Prop where
  agentId : IsName agentId
  reason : IsName a.reason
  fixNote : ∀ s ∈ a.fixNote, noSurrogates s = true

/-- What is printed at the end. -/
def flagOutput (id : PyStr) : PyValue := dictOf [("ok", .bool true), ("correctionId", .str id)]

/-- The correction of a record, as it is in the file. -/
structure FlagOf (P : Platform) (k : P.PrivateKey) (env : Env) (agentId : PyStr) (a : FlagArgs)
    (c : PyValue) : Prop where
  verified : verify P c (some (P.publicKey k)) = true
  correctionId : c.getItem "correctionId" = .ok (.str env.uuid)
  agent : entry c "agent" "id" = .ok (.str agentId)
  reason : c.getItem "reason" = .ok (.str a.reason)
  trigger : c.getItem "trigger" = .ok (.str (lit "human_flagged"))

/-- The correction follows the record: it extends each chain that ends with it. -/
def Extends (P : Platform) (publicKey : P.PublicKey) (prior c : PyValue) : Prop :=
  ∀ records : List PyValue,
    verifyChain P (.list (records ++ [prior])) (some publicKey) .none = true →
    (∀ r ∈ records ++ [prior], r.getItem "correctionId" ≠ c.getItem "correctionId") →
      verifyChain P (.list (records ++ [prior] ++ [c])) (some publicKey) .none = true

theorem flagArgs_domain : RetractDomain P (flagArgs agentId a prior) ↔
    Retractable prior.val ∧ FlagTexts agentId a := by
  constructor
  · intro h
    refine ⟨h.prior, isNameValue_str.mp h.common.agentId, isNameValue_str.mp h.reason, ?_⟩
    intro s hs
    have hnote := h.fixNote
    rw [flagArgs, Option.mem_def.mp hs] at hnote
    rcases eq_or_ne s [] with rfl | hne
    · rfl
    · obtain ⟨t, ht, hsurr⟩ := hnote (truthy_str hne)
      cases ht
      exact hsurr
  · rintro ⟨hprior, h⟩
    exact {
      common := {
        agentId := isNameValue_str.mpr h.agentId
        principalId := ⟨_, rfl, List.cons_ne_nil _ _, noSurrogates_lit _⟩
        principalType := ⟨_, rfl, noSurrogates_lit _⟩
        kid := nofun
        metadata := nofun
        correctionId := nofun
        timestamp := nofun }
      prior := hprior
      reason := isNameValue_str.mpr h.reason
      trigger := ⟨"human_flagged", by simp [validTriggers], rfl⟩
      fixType := ⟨"replace", by simp [validFixTypes], rfl⟩
      fixNote := fun ht => by
        cases hnote : a.fixNote with
        | none =>
            rw [flagArgs, hnote] at ht
            cases ht
        | some s => exact ⟨s, by rw [flagArgs, hnote]; rfl, h.fixNote s hnote⟩
      correctedContent := nofun
      source := .inl ⟨rfl, rfl⟩ }

section

variable {before : List PyValue} {n : ℕ}

/-- Without a correction the command raises, and the file is as it was. -/
theorem flagRecord_of_error {e : PyErr}
    (hr : (retract P privateKey env (flagArgs agentId a prior)).result = .error e) :
    flagRecord P privateKey env agentId file a (some prior) = (.error e, file) := by
  rw [flagRecord, hr]
  rfl

/-- Once the correction is made, nothing raises. -/
theorem flagRecord_of_retract (henv : env.Proper P) (hall : all file = .ok (before, n))
    {r : PyValue} (hr : (retract P privateKey env (flagArgs agentId a prior)).result = .ok r) :
    ∃ out file', flagRecord P privateKey env agentId file a (some prior) =
        (.ok ⟨0, out, []⟩, file') ∧
      printed (flagOutput env.uuid) = .ok out ∧ all file' = .ok (before ++ [listed r], n) := by
  obtain ⟨hd, b, hb⟩ := Call.canonical (c := .retract env _) hr
  have hwf : r.WF := Call.wf (c := .retract env _) hr
  obtain ⟨file', happ, hall'⟩ := all_append_signed hall hwf hd hb
  have hid : r.getItem "correctionId" = .ok (.str env.uuid) := (retract_entries hr).correctionId
  have hout : (flagOutput env.uuid).WF := dictOf_wf (by simp) (by simp)
  have hjson : (flagOutput env.uuid).JsonAble :=
    PyValue.jsonAble_members.mpr (by simpa using henv.uuid)
  obtain ⟨t, ht, _⟩ := reads_dumps Decoder.default_plain isWs_space hout hjson
  have hprinted : printed (flagOutput env.uuid) = .ok (t ++ ['\n']) := by
    rw [printed, ht]
    rfl
  refine ⟨t ++ ['\n'], file', ?_, hprinted, hall'⟩
  have hmade : ((retract P privateKey env (flagArgs agentId a prior)).result >>= fun corr =>
      (append file corr).map fun file' => (corr, file')) = .ok (r, file') :=
    bind_eq_ok.mpr ⟨r, hr, map_eq_ok.mpr ⟨file', happ, rfl⟩⟩
  have hexit : ((r.getItem "correctionId" >>= fun id =>
      printed (dictOf [("ok", .bool true), ("correctionId", id)])).map (⟨0, ·, []⟩) :
        Except PyErr Exit) = .ok ⟨0, t ++ ['\n'], []⟩ :=
    map_eq_ok.mpr ⟨_, bind_eq_ok.mpr ⟨_, hid, hprinted⟩, rfl⟩
  rw [flagRecord, hmade]
  exact Prod.ext hexit rfl

/-- The correction, once it has been read back. -/
theorem flagOf_listed {r : PyObject}
    (hsign : ∀ data, P.verify (P.publicKey privateKey) (P.sign privateKey data) data = true)
    (hr : (retract P privateKey env (flagArgs agentId a prior)).result = .ok r.val) {b : Bytes}
    (hb : canonicalJson r.val = .ok b) :
    FlagOf P privateKey env agentId a (listed r.val) := by
  obtain ⟨_, _, hret⟩ := retract_returned hr
  have he := retract_entries hr
  exact {
    verified := ((alike_listed r.wf hb).verify_eq _).trans (hret.verify hsign)
    correctionId := getItem_listed he.correctionId
    agent := entry_listed he.agentId
    reason := getItem_listed he.reason
    trigger := getItem_listed he.trigger }

theorem extends_listed {r : PyObject}
    (hsign : ∀ data, P.verify (P.publicKey privateKey) (P.sign privateKey data) data = true)
    (hr : (retract P privateKey env (flagArgs agentId a prior)).result = .ok r.val) {b : Bytes}
    (hb : canonicalJson r.val = .ok b) :
    Extends P (P.publicKey privateKey) prior.val (listed r.val) := by
  intro records hchain hids
  have hist := ((verifyChain_iff P).mp hchain).1
  have hprior : verify P prior.val (some (P.publicKey privateKey)) = true :=
    hist.ok _ (List.mem_append_right _ (List.mem_singleton_self _))
  obtain ⟨_, _, hret⟩ := retract_returned hr
  have halike := alike_listed r.wf hb
  have hprior' : Alike prior.val prior.val :=
    ⟨prior.wf, prior.wf, .inr ⟨_, (canonicalJson_of_verify P hprior).choose_spec,
      (canonicalJson_of_verify P hprior).choose_spec⟩⟩
  have hlinked : linked P (some prior.val) (listed r.val) = .ok true :=
    linked_of_alike P hprior (hret.verify hsign) hprior' halike
      (linked_of_retract hsign hprior hr rfl)
  refine (verifyChain_iff P).mpr ⟨(history_concat hist).mpr ⟨?_, ?_, ?_⟩, rfl⟩
  · exact (halike.verify_eq _).trans (hret.verify hsign)
  · rintro hmem
    obtain ⟨r', hr', he⟩ := List.mem_map.mp hmem
    refine hids r' hr' ?_
    rw [getItem_recordId (hist.ok _ hr'), getItem_recordId ((halike.verify_eq _).trans
      (hret.verify hsign))]
    exact congrArg (fun id => Except.ok (PyValue.str id)) he
  · intro last hlast
    rw [List.getLast?_concat, Option.mem_def, Option.some.injEq] at hlast
    exact hlast ▸ hlinked

/-- If the lookup finds a record, the command ends with 0 exactly if the record can be
corrected and the texts can be signed.  Otherwise it raises, and the file is as it was.
After an end the file holds one more record, the correction, and it extends each chain that
ends with the record. -/
theorem human_flag_corrects (henv : env.Proper P)
    (hsign : ∀ data, P.verify (P.publicKey privateKey) (P.sign privateKey data) data = true)
    (hsha : ∀ data, (P.sha256 data).length = 32) (hall : all file = .ok (before, n))
    (hget : get file (.str a.receipt) = .ok (some prior.val)) :
    ((∃ exit, (humanFlag P privateKey env agentId file a).1 = .ok exit) ↔
      Retractable prior.val ∧ FlagTexts agentId a) ∧
    (∀ e, (humanFlag P privateKey env agentId file a).1 = .error e →
      (humanFlag P privateKey env agentId file a).2 = file) ∧
    ∀ exit, (humanFlag P privateKey env agentId file a).1 = .ok exit →
      exit.code = 0 ∧ exit.err = [] ∧ printed (flagOutput env.uuid) = .ok exit.out ∧
        ∃ c, all (humanFlag P privateKey env agentId file a).2 = .ok (before ++ [c], n) ∧
          FlagOf P privateKey env agentId a c ∧
          Extends P (P.publicKey privateKey) prior.val c := by
  have hflag : humanFlag P privateKey env agentId file a =
      flagRecord P privateKey env agentId file a (some prior) := humanFlag_of_ok hget
  have hdomain : (∃ r, (retract P privateKey env (flagArgs agentId a prior)).result = .ok r) ↔
      RetractDomain P (flagArgs agentId a prior) := retract_ok_iff henv hsha
  rw [hflag, ← flagArgs_domain, ← hdomain]
  cases hr : (retract P privateKey env (flagArgs agentId a prior)).result with
  | error e =>
      rw [flagRecord_of_error hr]
      exact ⟨⟨nofun, nofun⟩, fun _ _ => rfl, nofun⟩
  | ok r =>
      obtain ⟨out, file', hrecord, hprinted, hall'⟩ := flagRecord_of_retract henv hall hr
      rw [hrecord]
      refine ⟨⟨fun _ => ⟨r, rfl⟩, fun _ => ⟨_, rfl⟩⟩, nofun, fun exit h => ?_⟩
      obtain rfl := Except.ok.inj h
      have hwf : r.WF := Call.wf (c := .retract env _) hr
      obtain ⟨_, b, hb⟩ := Call.canonical (c := .retract env _) hr
      exact ⟨rfl, rfl, hprinted, listed r, hall', flagOf_listed (r := ⟨r, hwf⟩) hsign hr hb,
        extends_listed (r := ⟨r, hwf⟩) hsign hr hb⟩

end

namespace Flagged

open Corrlog.Adapters.Sample (env' env'_proper_table tablePlatform tablePlatform_sha256
  tablePlatform_verify)
open Corrlog.Vector (text key digest signature bytes)

/-- The correction of the flagged vector, with a signature to fill in. -/
def correctionWith (sig : String) : PyValue :=
  dictOf [("correctionId", text "00000000-0000-4000-8000-000000000002"),
    ("agent", dictOf [("id", text "vector-agent"), ("publicKey", text key)]),
    ("principal", dictOf [("id", text "unknown"), ("type", text "organization")]),
    ("supersedes", dictOf [("receiptId", text "00000000-0000-4000-8000-000000000001"),
      ("digest", digest "Qx8Ju9WvQzppqgKmNztNoJzV1N3RlUtjhZgLR7iRYVE")]),
    ("action", dictOf [("type", text "memory.write")]), ("reason", text "wrong unit"),
    ("trigger", text "human_flagged"), ("fix", dictOf [("type", text "replace")]),
    ("timestamp", text "2026-08-25T00:01:00+00:00"), ("metadata", dictOf []),
    ("signature", signature sig)]

/-- The signature of the correction. -/
def correctionSig : String :=
  "ydo9GAJ5__8pspU5vtGEq-Gyq8n5PtDfSA4lCvSs4PYAMTv4BLXQZYJnzJHCTiowwv-UziepqMGeguES8HioAg"

/-- The platform with this signature. -/
def platform : Platform :=
  tablePlatform [(bytes (Vector.actionWith ""), Vector.actionSig),
      (bytes (correctionWith ""), correctionSig)]
    [(bytes Vector.action, "Qx8Ju9WvQzppqgKmNztNoJzV1N3RlUtjhZgLR7iRYVE")]

/-- The command line that flags the first vector. -/
def args : FlagArgs where
  receipt := lit "00000000-0000-4000-8000-000000000001"
  reason := lit "wrong unit"
  fixNote := none

/-- The record that is flagged. -/
def flagged : PyObject := ⟨Vector.action, Vector.action_wf⟩

/-- The correction of the vector is the one whose signature is in the table. -/
example : ((retract platform () env'
    (flagArgs (lit "vector-agent") args flagged)).result.toOption.map bytes) =
      some (bytes (correctionWith correctionSig)) := by
  decide +kernel

theorem verifyChain_flagged :
    verifyChain platform (.list [flagged.val]) (some (platform.publicKey ())) .none = true := by
  decide +kernel

theorem exists_file : ∃ file, all file = .ok ([flagged.val], 0) := by
  have hnone : all none = .ok ([], 0) := rfl
  obtain ⟨file, _, hall⟩ := all_append_signed hnone flagged.wf rfl
    (Vector.canonicalJson_records flagged List.mem_cons_self)
  exact ⟨file, hall⟩

theorem get_flagged {file : Option Bytes} (h : all file = .ok ([flagged.val], 0)) :
    get file (.str args.receipt) = .ok (some flagged.val) := by
  have hid : hasId (.str args.receipt) flagged.val = true := by decide +kernel
  refine bind_eq_ok.mpr ⟨_, h, ?_⟩
  show findId (.str args.receipt) [flagged.val] = _
  rw [findId_str]
  simp [hid]

end Flagged

/-- The flagged vector and its correction are a chain. -/
theorem human_flag_corrects_vector : ∃ file exit file' c,
    get file (.str Flagged.args.receipt) = .ok (some Vector.action) ∧
    humanFlag Flagged.platform () Adapters.Sample.env' (lit "vector-agent") file Flagged.args =
      (.ok exit, file') ∧
    exit.code = 0 ∧ all file' = .ok ([Vector.action, c], 0) ∧
      verifyChain Flagged.platform (.list [Vector.action, c])
        (some (Flagged.platform.publicKey ())) .none = true := by
  obtain ⟨file, hall⟩ := Flagged.exists_file
  have hget := Flagged.get_flagged hall
  have htexts : FlagTexts (lit "vector-agent") Flagged.args :=
    ⟨⟨List.cons_ne_nil _ _, noSurrogates_lit _⟩, ⟨List.cons_ne_nil _ _, noSurrogates_lit _⟩, nofun⟩
  obtain ⟨hreturns, _, hexit⟩ := human_flag_corrects
    Adapters.Sample.env'_proper_table Adapters.Sample.tablePlatform_verify
    Adapters.Sample.tablePlatform_sha256 hall hget
  obtain ⟨exit, h⟩ := hreturns.mpr ⟨Vector.retractable_action, htexts⟩
  obtain ⟨hcode, _, _, c, hfile, hflag, hextends⟩ := hexit exit h
  refine ⟨file, exit, _, c, hget, Prod.ext h rfl, hcode, hfile, ?_⟩
  refine hextends [] Flagged.verifyChain_flagged (List.forall_mem_singleton.mpr fun he => ?_)
  have hid : Flagged.flagged.val.getItem "correctionId" = .ok (.str Flagged.args.receipt) := rfl
  rw [hflag.correctionId, hid, Except.ok.injEq, PyValue.str.injEq] at he
  exact absurd he (by decide)

end Corrlog.ClaudeCode
