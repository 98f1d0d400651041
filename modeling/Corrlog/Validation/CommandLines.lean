import Corrlog.Standalone.Main
import Corrlog.Validation.Independent

/-!
# Two command lines

`independent_verifier.py` and `verifier/standalone.py` take the same files, key and
`--chain`.  The one parses with `json.load` and goes on where a file cannot be read, the
other parses strictly and stops there.

For files that the strict parser takes they end with 0 on the same ones, but for what
the independent verifier does not check and for larger integers (`command_lines`).
-/

namespace Corrlog.Independent

open Python
open Linear (History)
open Standalone (Loaded given loadOption loadPubFromFile_eq_some readPath strictDecoder)

/-! ## The code -/

section

variable (P : Platform) (dumps : PyValue → Except PyErr Bytes) (files : PyStr → Option Bytes)

/-- The command line, as `parse_args` returns it. -/
structure Args where
  files : List PyStr
  /-- `nargs='+'`. -/
  files_ne : files ≠ []
  chain : Bool
  key : Option PyStr

/-- `json.load(open(path, encoding="utf-8"))`. -/
def loadJson (path : PyStr) : Option PyValue :=
  (files path).bind fun b => (readText b).bind (loads .default)

/-- `content.get("publicKey") if isinstance(content, dict) else str(content).strip()`. -/
def keyText (content : PyValue) : Option PyValue :=
  match content with
  | .dict items => some ((getStr "publicKey" items).getD .none)
  | _ => (pyStr P content).map fun s => .str (stripStr s)

/-- `load_pub`. -/
def loadPub (path : PyStr) : Option P.PublicKey := do
  let content ← loadJson files path
  let b64 ← keyText P content
  match b64urlDecode b64 with
  | .ok raw => P.fromPublicBytes raw
  | .error _ => none

/-- How `main` ends. -/
inductive Outcome
  /-- The key cannot be loaded. -/
  | fatal
  /-- With a line for each result. -/
  | results (oks : List Bool)
  /-- With an exception of a verifier. -/
  | raised

/-- The exit code of the process. -/
def Outcome.code : Outcome → ℕ
  | .fatal => 2
  | .results oks => if oks.all id then 0 else 1
  | .raised => 1

/-- What the loop of `main` has of a file: the record, if it can be read, and the verdict. -/
def checkFile (pinned : Option P.PublicKey) (path : PyStr) :
    Except PyErr (Option PyValue × Bool) :=
  match loadJson files path with
  | none => .ok (none, false)
  | some rec => (verifyRecord P dumps rec pinned).map fun ok => (some rec, ok)

/-- What `main` prints a line for, in order. -/
def mainResults (args : Args) (pinned : Option P.PublicKey) : Except PyErr (List Bool) := do
  let checked ← args.files.mapM (checkFile P dumps files pinned)
  let oks := checked.map Prod.snd
  if args.chain then
    let ok ← verifyChain P dumps (checked.filterMap Prod.fst) pinned
    return oks ++ [ok]
  else return oks

/-- `main`. -/
def main (args : Args) : Outcome :=
  match loadOption (loadPub P files) args.key with
  | none => .fatal
  | some pinned =>
      match mainResults P dumps files args pinned with
      | .ok oks => .results oks
      | .error _ => .raised

end

/-- The command line with the same files, key and `--chain`. -/
def Args.ofStandalone (args : Standalone.Args) : Args where
  files := args.files
  files_ne := args.files_ne
  chain := args.chain
  key := args.key

/-! ## Reading -/

section

variable {P : Platform} {dumps : PyValue → Except PyErr Bytes} {files : PyStr → Option Bytes}

/-- Without repeated names the strict parser builds the dict that `json.load` builds. -/
theorem addUnique_foldl_some {kvs : List (PyStr × PyValue)} {d d' : Items}
    (h : kvs.foldl Standalone.addUnique (some d) = some d') :
    kvs.foldl (fun d kv => setKey (.str kv.1) kv.2 d) d = d' := by
  induction kvs generalizing d with
  | nil => exact Option.some.inj h
  | cons kv kvs ih =>
      rw [List.foldl_cons, Standalone.addUnique, Option.bind_some] at h
      split at h
      next => rw [Standalone.addUnique_foldl_none] at h; cases h
      next => exact ih h

/-- Where no member is repeated, none is overridden. -/
theorem strictDecoder_le : strictDecoder.Le .default where
  object pairs v h := by
    obtain ⟨d, hd, rfl⟩ := Option.map_eq_some_iff.mp h
    exact congrArg (some ∘ PyValue.dict) (addUnique_foldl_some hd)
  constant x v h := by cases h

/-- What the strict parser takes, `json.load` reads as the same value. -/
theorem loadJson_of_readPath {path : PyStr} {v : PyValue} (h : readPath files path = some v) :
    loadJson files path = some v := by
  obtain ⟨b, hb, h⟩ := Option.bind_eq_some_iff.mp h
  obtain ⟨t, ht, h⟩ := Option.bind_eq_some_iff.mp h
  exact Option.bind_eq_some_iff.mpr
    ⟨b, hb, Option.bind_eq_some_iff.mpr ⟨t, ht, loads_mono strictDecoder_le h⟩⟩

/-- There is no white space around an encoded key. -/
theorem stripStr_b64url {data : Bytes} (h : data ≠ []) :
    stripStr (ofChars (Corrlog.b64url data)) = ofChars (Corrlog.b64url data) := by
  have hmap : (ofChars (Corrlog.b64url data)).mapM (fun c => ordSextet (ord c)) =
      some (sextets data) := by
    rw [b64url_eq, mapM_ordSextet (sextets_lt data)]
  have hspace : ∀ c ∈ ofChars (Corrlog.b64url data), c.isSpace = false := by
    intro c hc
    obtain ⟨n, hn⟩ := (mapM_ordSextet_spec hmap).2 c hc
    exact isSpace_eq_false (ordSextet_range hn)
  have hne : ofChars (Corrlog.b64url data) ≠ [] := by
    have hlen := List.length_pos_iff.mpr h
    rw [← List.length_pos_iff, length_ofChars, length_b64url]
    omega
  have hnil : ∀ c ∈ ([] : PyStr), c.isSpace = true := List.forall_mem_nil _
  have hstrip := stripStr_append hspace hne hnil hnil
  rwa [List.append_nil, List.nil_append] at hstrip

/-- A key file that the strict loader takes holds the same key for the other one. -/
theorem loadPub_of_loadPubFromFile {path : PyStr} {pk : P.PublicKey}
    (h : Standalone.loadPubFromFile P files path = some pk) : loadPub P files path = some pk := by
  have hne : P.publicBytes pk ≠ [] :=
    List.ne_nil_of_length_pos (by rw [P.length_publicBytes]; omega)
  have hload {content : PyValue} (hread : readPath files path = some content)
      (htext : keyText P content = some (.str (ofChars (publicKeyB64url P pk)))) :
      loadPub P files path = some pk := by
    rw [loadPub, loadJson_of_readPath hread]
    simp only [Option.bind_eq_bind, Option.bind_some, htext]
    rw [publicKeyB64url, b64urlDecode_b64url]
    exact (P.fromPublicBytes_iff _ pk).mpr rfl
  rcases loadPubFromFile_eq_some.mp h with hread | ⟨items, hread, hitem⟩
  · refine hload hread (congrArg (fun s => some (PyValue.str s)) ?_)
    rw [publicKeyB64url, stripStr_b64url hne]
  · refine hload hread ?_
    rw [keyText, hitem, Option.getD_some]

/-- A key that the strict loader loads is loaded by the lenient one, as the same key. -/
theorem loadOption_of_loadPubFromFile {option : Option PyStr} {key : Option P.PublicKey}
    (h : loadOption (Standalone.loadPubFromFile P files) option = some key) :
    loadOption (loadPub P files) option = some key := by
  rw [loadOption] at h ⊢
  split at h
  next hgiven => exact h
  next path hgiven =>
    obtain ⟨pk, hpk, rfl⟩ := Option.map_eq_some_iff.mp h
    rw [loadPub_of_loadPubFromFile hpk, Option.map_some]

/-! ## The exit code -/

section

variable {key : Option P.PublicKey}

/-- A file that can be read is judged by the record in it. -/
theorem checkFile_of_readPath {path : PyStr} {r : PyValue} (h : readPath files path = some r) :
    checkFile P dumps files key path =
      (verifyRecord P dumps r key).map fun ok => (some r, ok) := by
  rw [checkFile, loadJson_of_readPath h]

/-- The loop prints `PASS` for every file exactly if every record is accepted. -/
theorem mapM_checkFile_iff {paths : List PyStr} {records : List PyValue}
    (hread : List.Forall₂ (fun path r => readPath files path = some r) paths records)
    {checked : List (Option PyValue × Bool)} :
    paths.mapM (checkFile P dumps files key) = .ok checked ∧ (∀ c ∈ checked, c.2 = true) ↔
      checked = records.map (fun r => (some r, true)) ∧
        ∀ r ∈ records, verifyRecord P dumps r key = .ok true := by
  induction hread generalizing checked with
  | nil =>
      rw [List.mapM_nil]
      constructor
      · rintro ⟨h, _⟩
        exact ⟨(Except.ok.inj h).symm, List.forall_mem_nil _⟩
      · rintro ⟨rfl, _⟩
        exact ⟨rfl, List.forall_mem_nil _⟩
  | @cons path r paths records hr _ ih =>
      rw [List.mapM_cons, checkFile_of_readPath hr, List.forall_mem_cons]
      constructor
      · rintro ⟨h, hall⟩
        obtain ⟨c, hc, h⟩ := bind_eq_ok.mp h
        obtain ⟨cs, hcs, h⟩ := bind_eq_ok.mp h
        cases h
        obtain ⟨hok, hall⟩ := List.forall_mem_cons.mp hall
        obtain ⟨rfl, hrest⟩ := ih.mp ⟨hcs, hall⟩
        cases hver : verifyRecord P dumps r key with
        | error e => rw [hver] at hc; cases hc
        | ok ok =>
            rw [hver] at hc
            cases hc
            obtain rfl : ok = true := hok
            exact ⟨rfl, rfl, hrest⟩
      · rintro ⟨rfl, hver, hrest⟩
        obtain ⟨hcs, hall⟩ := ih.mpr ⟨rfl, hrest⟩
        rw [hver, hcs]
        exact ⟨rfl, List.forall_mem_cons.mpr ⟨rfl, hall⟩⟩

theorem filterMap_map_some (records : List PyValue) :
    (records.map fun r => (some r, true)).filterMap Prod.fst = records := by
  rw [List.filterMap_map]
  exact List.filterMap_some

/-- The results if every file can be read. -/
theorem mainResults_iff {args : Args} {records : List PyValue}
    (hread : List.Forall₂ (fun path r => readPath files path = some r) args.files records) :
    (∃ oks, mainResults P dumps files args key = .ok oks ∧ ∀ ok ∈ oks, ok = true) ↔
      (∀ r ∈ records, verifyRecord P dumps r key = .ok true) ∧
        (args.chain = true → verifyChain P dumps records key = .ok true) := by
  constructor
  · rintro ⟨oks, h, hall⟩
    obtain ⟨checked, hchecked, h⟩ := bind_eq_ok.mp h
    cases hchain : args.chain with
    | false =>
        rw [hchain, if_neg Bool.false_ne_true] at h
        cases h
        obtain ⟨_, hver⟩ := (mapM_checkFile_iff hread).mp ⟨hchecked, List.forall_mem_map.mp hall⟩
        exact ⟨hver, fun h => by cases h⟩
    | true =>
        rw [hchain, if_pos rfl] at h
        obtain ⟨ok, hok, h⟩ := bind_eq_ok.mp h
        cases h
        obtain ⟨hall, hlast⟩ := List.forall_mem_append.mp hall
        obtain ⟨rfl, hver⟩ := (mapM_checkFile_iff hread).mp ⟨hchecked, List.forall_mem_map.mp hall⟩
        obtain rfl := hlast ok (List.mem_singleton_self ok)
        rw [filterMap_map_some] at hok
        exact ⟨hver, fun _ => hok⟩
  · rintro ⟨hver, hchain⟩
    obtain ⟨hchecked, hall⟩ := (mapM_checkFile_iff hread).mpr ⟨rfl, hver⟩
    have hall : ∀ ok ∈ (records.map fun r => (some r, true)).map Prod.snd, ok = true :=
      List.forall_mem_map.mpr hall
    cases hc : args.chain with
    | false => exact ⟨_, bind_eq_ok.mpr ⟨_, hchecked, by rw [hc]; rfl⟩, hall⟩
    | true =>
        refine ⟨_, bind_eq_ok.mpr ⟨_, hchecked, ?_⟩,
          List.forall_mem_append.mpr ⟨hall, List.forall_mem_singleton.mpr rfl⟩⟩
        rw [hc, if_pos rfl, filterMap_map_some, hchain hc]
        rfl

/-- The exit code if every file can be read. -/
theorem code_eq_zero_iff {args : Args} {records : List PyValue}
    (hkey : loadOption (loadPub P files) args.key = some key)
    (hread : List.Forall₂ (fun path r => readPath files path = some r) args.files records) :
    (main P dumps files args).code = 0 ↔
      (∀ r ∈ records, verifyRecord P dumps r key = .ok true) ∧
        (args.chain = true → verifyChain P dumps records key = .ok true) := by
  rw [← mainResults_iff hread, main, hkey]
  dsimp only
  cases mainResults P dumps files args key with
  | ok oks => simp [Outcome.code]
  | error e => simp [Outcome.code]

end

/-- If the strict parser takes all files, the standalone verifier ends with 0 and no
record has an integer of `2 ** 53` or more exactly if the independent verifier ends with
0, every record is strict and, with `--chain`, the records name each other. -/
theorem command_lines (hdumps : ImplementsSafe dumps) {args : Standalone.Args}
    {key : Option P.PublicKey} {records : List PyValue}
    (h : Loaded P files args key none records) :
    (Standalone.main P dumps files args).code = 0 ∧ (∀ r ∈ records, safeInts r = true) ↔
      (main P dumps files (.ofStandalone args)).code = 0 ∧
        (∀ r ∈ records, IsStrict P key r) ∧
          (args.chain = true → History (strictRules P key) records) := by
  have hcore : (Standalone.main P dumps files args).code = 0 ↔
      (∀ r ∈ records, verify P r key = true) ∧
        (args.chain = true → Corrlog.verifyChain P (.list records) key .none = true) := by
    rw [Standalone.code_eq_zero_iff hdumps.implements]
    constructor
    · rintro ⟨_, _, _, h', hver⟩
      obtain ⟨rfl, rfl, rfl⟩ := h.unique h'
      exact hver
    · exact fun hver => ⟨key, none, records, h, hver⟩
  have hcode : (main P dumps files (.ofStandalone args)).code = 0 ↔
      (∀ r ∈ records, verifyRecord P dumps r key = .ok true) ∧
        (args.chain = true → verifyChain P dumps records key = .ok true) :=
    code_eq_zero_iff (loadOption_of_loadPubFromFile h.key_eq) h.records_eq
  rw [hcore, hcode]
  have hrecord (r : PyValue) (hr : r ∈ records) :
      verify P r key = true ∧ safeInts r = true ↔
        IsStrict P key r ∧ verifyRecord P dumps r key = .ok true :=
    verify_and_safeInts hdumps (h.wf r hr)
  have hchain : Corrlog.verifyChain P (.list records) key .none = true ∧
        (∀ r ∈ records, safeInts r = true) ↔
      History (strictRules P key) records ∧ verifyChain P dumps records key = .ok true := by
    rw [← verifyChain_and_safeInts hdumps h.wf, safeInts, safeIntsList_iff]
  constructor
  · rintro ⟨⟨hver, hlinks⟩, hsafe⟩
    refine ⟨⟨fun r hr => ((hrecord r hr).mp ⟨hver r hr, hsafe r hr⟩).2, fun hc =>
      (hchain.mp ⟨hlinks hc, hsafe⟩).2⟩, fun r hr => ?_, fun hc => ?_⟩
    · exact ((hrecord r hr).mp ⟨hver r hr, hsafe r hr⟩).1
    · exact (hchain.mp ⟨hlinks hc, hsafe⟩).1
  · rintro ⟨⟨hver, hlinks⟩, hstrict, hhist⟩
    have hboth (r : PyValue) (hr : r ∈ records) :=
      (hrecord r hr).mpr ⟨hstrict r hr, hver r hr⟩
    exact ⟨⟨fun r hr => (hboth r hr).1, fun hc => (hchain.mpr ⟨hhist hc, hlinks hc⟩).1⟩,
      fun r hr => (hboth r hr).2⟩

end

/-- The command line for the two vectors, without a checkpoint. -/
def vectorArgs : Standalone.Args := { Standalone.vectorArgs with checkpoint := none }

theorem vector_jsonAble : Vector.action.JsonAble ∧ Vector.correction.JsonAble :=
  ⟨(jsonAble_iff_canonicalJson Vector.action_wf).mpr
      ⟨_, Vector.canonicalJson_records ⟨_, Vector.action_wf⟩ List.mem_cons_self⟩,
    (jsonAble_iff_canonicalJson Vector.correction_wf).mpr
      ⟨_, Vector.canonicalJson_records ⟨_, Vector.correction_wf⟩
        (List.mem_cons_of_mem _ List.mem_cons_self)⟩⟩

/-- Written and read again, a literal dict is one. -/
theorem listed_dictOf (kvs : List (String × PyValue)) :
    listed (dictOf kvs) = dictOf (kvs.map fun kv => (kv.1, listed kv.2)) := by
  simp only [dictOf, listed_dict, members, strItems, List.map_map]
  rfl

theorem listed_text (s : String) : listed (Vector.text s) = Vector.text s := rfl

/-- Nothing in the vectors is a tuple. -/
theorem listed_vectors :
    listed Vector.action = Vector.action ∧ listed Vector.correction = Vector.correction := by
  constructor
  · simp only [Vector.action, Vector.actionWith, Vector.signature, Vector.digest, listed_dictOf,
      listed_text, List.map_cons, List.map_nil]
  · simp only [Vector.correction, Vector.correctionWith, Vector.signature, Vector.digest,
      listed_dictOf, listed_text, List.map_cons, List.map_nil]

/-- The vectors on disk can be loaded. -/
theorem loaded_vectors :
    Loaded Vector.platform (Standalone.disk (Standalone.vectorFiles .none)) vectorArgs
      (some Vector.publicKey) none [Vector.action, Vector.correction] where
  allowed h := by cases h
  key_eq := by
    have hkey : given vectorArgs.key = some (lit "trusted-key.json") := rfl
    rw [loadOption, hkey]
    refine congrArg (Option.map some) (Standalone.loadPubFromFile_written
      (Standalone.written_disk rfl ?_ ?_))
    · rw [dictOf, PyValue.wf_members]
      simp
    · exact PyValue.jsonAble_members.mpr (List.forall_mem_singleton.mpr (noSurrogates_ofChars _))
  checkpoint_eq := rfl
  records_eq := by
    have hread {path : PyStr} {v : PyValue} (hwf : v.WF) (hj : v.JsonAble)
        (hpath : (Standalone.vectorFiles .none).lookup path = some v) (hl : listed v = v) :
        readPath (Standalone.disk (Standalone.vectorFiles .none)) path = some v :=
      (Standalone.readPath_written hwf hj (Standalone.written_disk hpath hwf hj)).trans
        (congrArg some hl)
    exact .cons (hread Vector.action_wf vector_jsonAble.1 rfl listed_vectors.1)
      (.cons (hread Vector.correction_wf vector_jsonAble.2 rfl listed_vectors.2) .nil)

/-- Both command lines accept the vectors. -/
theorem command_lines_vectors :
    (main Vector.platform safeJson (Standalone.disk (Standalone.vectorFiles .none))
      (.ofStandalone vectorArgs)).code = 0 := by
  have hsafe : ∀ r ∈ [Vector.action, Vector.correction], safeInts r = true := by decide +kernel
  have hchain := Vector.verifyChain_vectors
  have hok := ((Corrlog.verifyChain_iff Vector.platform).mp hchain).1.ok
  have hzero := (Standalone.code_eq_zero_iff implements_safeJson.implements).mpr
    ⟨_, _, _, loaded_vectors, hok, fun _ => hchain⟩
  exact ((command_lines implements_safeJson loaded_vectors).mp ⟨hzero, hsafe⟩).1

end Corrlog.Independent
