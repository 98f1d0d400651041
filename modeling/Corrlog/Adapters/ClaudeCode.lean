import Corrlog.Core.Lookup

/-!
# The human flag

`human-flag` of the Claude Code command line looks the receipt up in the sink,
retracts the record it finds and appends the correction.

A line of the file that holds JSON but no object, before the record, makes the
lookup raise, and the command with it: the record is not found although its line is
intact.  `human_flag_lookup` says that nothing else does.
-/

namespace Corrlog.ClaudeCode

open Python

/-- `--receipt`, `--reason` and `--fix-note`. -/
structure FlagArgs where
  receipt : PyStr
  reason : PyStr
  fixNote : Option PyStr

/-- How the command ends: its code, and what it prints on each stream. -/
structure Exit where
  code : ℕ
  out : List Char
  err : List Char

section

variable (P : Platform) (privateKey : P.PrivateKey) (env : Env) (agentId : PyStr)
  (file : Option Bytes) (a : FlagArgs)

/-- `print(json.dumps(v))`. -/
def printed (v : PyValue) : Except PyErr (List Char) := (dumps [' '] v).map (· ++ ['\n'])

/-- The arguments of the correction. -/
def flagArgs (prior : PyObject) : RetractArgs where
  priorRecord := prior
  reason := ⟨.str a.reason, rfl⟩
  trigger := .str "human_flagged"
  agentId := ⟨.str agentId, rfl⟩
  fixType := .str "replace"
  fixNote := a.fixNote.elim .none fun s => ⟨.str s, rfl⟩

/-- `human-flag` after the lookup, and the file then. -/
def flagRecord (prior : Option PyObject) : Except PyErr Exit × Option Bytes :=
  match prior with
  | none =>
      ((printed (dictOf [("ok", .bool false),
        ("error", .str (lit "receipt " ++ a.receipt ++ lit " not found"))])).map (⟨1, [], ·⟩), file)
  | some prior =>
      match (retract P privateKey env (flagArgs agentId a prior)).result >>= fun corr =>
          (append file corr).map fun file' => (corr, file') with
      | .error e => (.error e, file)
      | .ok (corr, file') =>
          ((corr.getItem "correctionId" >>= fun id =>
            printed (dictOf [("ok", .bool true), ("correctionId", id)])).map (⟨0, ·, []⟩), file')

/-- `human-flag`, and the file after it. -/
def humanFlag : Except PyErr Exit × Option Bytes :=
  match h : get file (.str a.receipt) with
  | .error e => (.error e, file)
  | .ok none => flagRecord P privateKey env agentId file a none
  | .ok (some prior) => flagRecord P privateKey env agentId file a (some ⟨prior, wf_of_get h⟩)

variable {P privateKey env agentId file a}

theorem humanFlag_of_ok {prior : Option PyObject}
    (h : get file (.str a.receipt) = .ok (prior.map PyObject.val)) :
    humanFlag P privateKey env agentId file a =
      flagRecord P privateKey env agentId file a prior := by
  rw [humanFlag]
  split
  next he => rw [h] at he; cases he
  next ho =>
    rw [h] at ho
    cases prior with
    | none => rfl
    | some r => cases ho
  next r ho =>
    rw [h] at ho
    cases prior with
    | none => cases ho
    | some r' => cases ho; rfl

theorem humanFlag_of_error {e : PyErr} (h : get file (.str a.receipt) = .error e) :
    humanFlag P privateKey env agentId file a = (.error e, file) := by
  rw [humanFlag]
  split
  next he => rw [h] at he; cases he; rfl
  next ho => rw [h] at ho; cases ho
  next r ho => rw [h] at ho; cases ho

end

/-- The lookup returns the first record with the identifier, if there is one, and the
command goes on with it. -/
structure Found (b : Bytes) (id : PyStr) : Prop where
  get_eq : get (some b) (.str id) = .ok (firstRecord b id)
  flag_eq : ∀ (P : Platform) (privateKey : P.PrivateKey) env agentId (a : FlagArgs),
    a.receipt = id →
    ∀ prior : Option PyObject, prior.map PyObject.val = firstRecord b id →
      humanFlag P privateKey env agentId (some b) a =
        flagRecord P privateKey env agentId (some b) a prior

/-- In a file of valid UTF-8 the first record with the identifier is found if and only
if every line before it (every line, if there is none) that holds JSON holds an object.
Otherwise `get` raises, and the command does and leaves the file as it is. -/
theorem human_flag_lookup {b : Bytes} (hb : (decodeUtf8 b).isSome = true) (id : PyStr) :
    (Found b id ↔ ∀ v ∈ passed b id, v.isDict = true) ∧
    ((∃ v ∈ passed b id, v.isDict = false) →
      get (some b) (.str id) = builtinError .AttributeError ∧
      ∀ (P : Platform) (privateKey : P.PrivateKey) env agentId (a : FlagArgs), a.receipt = id →
        humanFlag P privateKey env agentId (some b) a =
          (builtinError .AttributeError, some b)) := by
  refine ⟨⟨fun h => (get_eq_firstRecord_iff hb id).mp h.get_eq, fun h => ?_⟩, fun h => ?_⟩
  · have hget := (get_eq_firstRecord_iff hb id).mpr h
    refine ⟨hget, ?_⟩
    intro P privateKey env agentId a ha prior hprior
    exact humanFlag_of_ok (by rw [ha, hget, hprior])
  · obtain ⟨v, hv, hd⟩ := h
    have hget : get (some b) (.str id) = builtinError .AttributeError := by
      rw [get_str hb, if_neg]
      intro hall
      rw [List.all_eq_true.mp hall v hv] at hd
      cases hd
    refine ⟨hget, ?_⟩
    intro P privateKey env agentId a ha
    exact humanFlag_of_error (by rw [ha, hget]; rfl)

/-- `null` on a line of its own, and an object after it. -/
def foreignFile : Bytes := utf8 "null\n\x7b\"correctionId\":\"a\"\x7d\n".toList

/-- The line of the object is intact, and is not found. -/
theorem human_flag_lookup_foreign :
    (decodeUtf8 foreignFile).isSome = true ∧ (firstRecord foreignFile (lit "a")).isSome = true ∧
    get (some foreignFile) (.str (lit "a")) ≠ .ok (firstRecord foreignFile (lit "a")) ∧
    get (some foreignFile) (.str (lit "a")) = builtinError .AttributeError := by
  have hutf8 : (decodeUtf8 foreignFile).isSome = true := by decide +kernel
  have hfirst : (firstRecord foreignFile (lit "a")).isSome = true := by decide +kernel
  have hpassed : (passed foreignFile (lit "a")).all PyValue.isDict = false := by decide +kernel
  have hget : get (some foreignFile) (.str (lit "a")) = builtinError .AttributeError := by
    rw [get_str hutf8, hpassed]
    rfl
  refine ⟨hutf8, hfirst, ?_, hget⟩
  rw [hget]
  intro h
  cases h

/-- A value that is no object, after the record, is harmless. -/
theorem human_flag_lookup_after :
    Found (utf8 "\x7b\"correctionId\":\"a\"\x7d\nnull\n".toList) (lit "a") := by
  refine (human_flag_lookup (by decide +kernel) (lit "a")).1.mpr ?_
  rw [← List.all_eq_true]
  decide +kernel

end Corrlog.ClaudeCode
