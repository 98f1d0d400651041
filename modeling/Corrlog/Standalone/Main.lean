import Corrlog.Binary64.Integers
import Corrlog.Core.Forks
import Corrlog.Standalone.Agreement
import Corrlog.Standalone.ReadJson

/-!
# The command line of the standalone verifier

`main` reads a key, a checkpoint and the records from files and prints a line for
each verdict.  Its exit code is all that a script sees of it.  It is 0 exactly if
every file was parsed strictly and the core would accept what was read
(`main_succeeds_iff`).

An operator publishes a key, a checkpoint and the records of a chain as
`json.dumps` writes them.  With that key and that checkpoint the exit code is 0 for
these records and for no others (`published_chain`).
-/

namespace Corrlog.Standalone

open Python
open Rfc8785 (Implements implements_canonicalJson)

/-! ## The code -/

/-- The two options of which `argparse` requires one. -/
inductive Trust
  | key (path : PyStr)
  | signatureOnly

/-- The command line, as `parse_args` returns it. -/
structure Args where
  files : List PyStr
  /-- `nargs='+'`. -/
  files_ne : files ≠ []
  trust : Trust
  chain : Bool
  checkpoint : Option PyStr

/-- `args.key`. -/
def Args.key (args : Args) : Option PyStr :=
  match args.trust with
  | .key path => some path
  | .signatureOnly => none

/-- The value of an option where it is true: the empty string is not. -/
def given (option : Option PyStr) : Option PyStr := option.filter (· ≠ [])

/-- How `main` ends. -/
inductive Outcome
  /-- `parser.error`. -/
  | usage
  /-- With a line for each result. -/
  | results (rs : List (Bool × String))
  /-- With an exception, and one line that starts with `FAIL: `. -/
  | failed

/-- The exit code of the process. -/
def Outcome.code : Outcome → ℕ
  | .usage => 2
  | .results rs => if rs.all Prod.fst then 0 else 1
  | .failed => 1

section

variable (P : Platform) (dumps : PyValue → Except PyErr Bytes) (files : PyStr → Option Bytes)

/-- `read_json`. -/
def readPath (path : PyStr) : Option PyValue := (files path).bind readJson

/-- `value['publicKey'] if isinstance(value, dict) else value`. -/
def publicKeyText (value : PyValue) : Option PyValue :=
  match value with
  | .dict items => getStr "publicKey" items
  | _ => some value

/-- `load_pub_from_file`. -/
def loadPubFromFile (path : PyStr) : Option P.PublicKey := do
  let value ← readPath files path
  let encoded ← publicKeyText value
  match b64urlDecode encoded (some 32) with
  | .ok raw => P.fromPublicBytes raw
  | .error _ => none

/-- An option that names a file, if it is given, and what the file holds. -/
def loadOption {α : Type} (load : PyStr → Option α) (option : Option PyStr) : Option (Option α) :=
  match given option with
  | none => some none
  | some path => (load path).map some

/-- The body of the `try` in `main`. -/
def mainResults (args : Args) : Option (List (Bool × String)) := do
  let key ← loadOption (loadPubFromFile P files) args.key
  let checkpoint ← loadOption (readPath files) args.checkpoint
  let records ← args.files.mapM (readPath files)
  let results := records.map fun r => verifyRecord P dumps r key
  return results ++
    if args.chain then [verifyChain P dumps (.list records) key (checkpoint.getD .none)] else []

/-- `main`. -/
def main (args : Args) : Outcome :=
  if (given args.checkpoint).isSome && !(args.chain && (given args.key).isSome) then .usage
  else
    match mainResults P dumps files args with
    | some rs => .results rs
    | none => .failed

end

/-! ## Reading -/

/-- A repeated name is fatal. -/
theorem addUnique_foldl_none (kvs : List (PyStr × PyValue)) : kvs.foldl addUnique none = none := by
  induction kvs with
  | nil => rfl
  | cons kv kvs ih => rw [List.foldl_cons, addUnique, Option.bind_none, ih]

theorem strictDecoder_proper : strictDecoder.Proper where
  object pairs v h hv := by
    have hfold : ∀ {pairs : List (PyStr × PyValue)} {d d' : Items},
        (∀ kv ∈ pairs, kv.2.WF) → (PyValue.dict d).WF →
          pairs.foldl addUnique (some d) = some d' → (PyValue.dict d').WF := by
      intro pairs
      induction pairs with
      | nil =>
          intro d d' _ hd h
          cases h
          exact hd
      | cons kv pairs ih =>
          intro d d' hpairs hd h
          obtain ⟨hkv, hpairs⟩ := List.forall_mem_cons.mp hpairs
          rw [List.foldl_cons, addUnique, Option.bind_some] at h
          split at h
          next => rw [addUnique_foldl_none] at h; cases h
          next => exact ih hpairs (PyValue.wf_setKey hkv hd) h
    obtain ⟨d, hd, rfl⟩ := Option.map_eq_some_iff.mp hv
    exact hfold h (d := []) rfl hd
  constant _ _ h := nomatch h

/-- What the strict parser reads is well-formed. -/
theorem wf_readPath {files : PyStr → Option Bytes} {path : PyStr} {v : PyValue}
    (h : readPath files path = some v) : v.WF := by
  obtain ⟨_, _, h⟩ := Option.bind_eq_some_iff.mp h
  obtain ⟨_, _, h⟩ := Option.bind_eq_some_iff.mp h
  exact wf_loads_of strictDecoder_proper h

theorem mapM_eq_some_iff {α β : Type} {f : α → Option β} {l : List α} {l' : List β} :
    l.mapM f = some l' ↔ List.Forall₂ (fun a b => f a = some b) l l' := by
  induction l generalizing l' with
  | nil => rw [List.mapM_nil, List.forall₂_nil_left_iff, Option.pure_def, Option.some.injEq, eq_comm]
  | cons a l ih =>
      rw [List.mapM_cons, List.forall₂_cons_left_iff]
      simp only [Option.bind_eq_bind, Option.bind_eq_some_iff, Option.pure_def, Option.some.injEq,
        ih]
      constructor
      · rintro ⟨b, hb, l', hl, rfl⟩
        exact ⟨b, l', hb, hl, rfl⟩
      · rintro ⟨b, l', hb, hl, rfl⟩
        exact ⟨b, hb, l', hl, rfl⟩

section

variable {P : Platform} {dumps : PyValue → Except PyErr Bytes} {files : PyStr → Option Bytes}

/-- A key file holds the text of the key, alone or as the member `publicKey`. -/
theorem loadPubFromFile_eq_some {path : PyStr} {pk : P.PublicKey} :
    loadPubFromFile P files path = some pk ↔
      readPath files path = some (.str (ofChars (publicKeyB64url P pk))) ∨
        ∃ items, readPath files path = some (.dict items) ∧
          getStr "publicKey" items = some (.str (ofChars (publicKeyB64url P pk))) := by
  have hload (encoded : PyValue) :
      (match b64urlDecode encoded (some 32) with
        | .ok raw => P.fromPublicBytes raw
        | .error _ => none) = some pk ↔
        encoded = .str (ofChars (publicKeyB64url P pk)) := by
    constructor
    · intro h
      split at h
      next raw hraw =>
        obtain ⟨_, htext⟩ := b64urlDecode_eq_ok.mp hraw
        rw [htext, ← (P.fromPublicBytes_iff raw pk).mp h]
        rfl
      next => cases h
    · rintro rfl
      rw [publicKeyB64url, b64urlDecode_eq_ok.mpr ⟨P.length_publicBytes pk, rfl⟩]
      exact (P.fromPublicBytes_iff _ pk).mpr rfl
  rw [loadPubFromFile, Option.bind_eq_bind, Option.bind_eq_some_iff]
  constructor
  · rintro ⟨v, hv, h⟩
    obtain ⟨encoded, henc, h⟩ := Option.bind_eq_some_iff.mp h
    obtain rfl := (hload encoded).mp h
    rw [publicKeyText.eq_def] at henc
    split at henc
    next items => exact Or.inr ⟨items, hv, henc⟩
    next =>
      cases henc
      exact Or.inl hv
  · rintro (hv | ⟨items, hv, hitem⟩)
    · exact ⟨_, hv, (hload _).mpr rfl⟩
    · exact ⟨_, hv, Option.bind_eq_some_iff.mpr ⟨_, hitem, (hload _).mpr rfl⟩⟩

/-! ## The exit code -/

/-- What `main` loads before it checks anything. -/
structure Loaded (P : Platform) (files : PyStr → Option Bytes) (args : Args)
    (key : Option P.PublicKey) (checkpoint : Option PyValue) (records : List PyValue) :
    Prop where
  /-- A checkpoint is of use for a chain under a key only. -/
  allowed : (given args.checkpoint).isSome → args.chain = true ∧ (given args.key).isSome
  key_eq : loadOption (loadPubFromFile P files) args.key = some key
  checkpoint_eq : loadOption (readPath files) args.checkpoint = some checkpoint
  records_eq : List.Forall₂ (fun path r => readPath files path = some r) args.files records

/-- The records that were loaded are well-formed. -/
theorem Loaded.wf {args : Args} {key : Option P.PublicKey} {checkpoint : Option PyValue}
    {records : List PyValue} (h : Loaded P files args key checkpoint records) :
    ∀ r ∈ records, r.WF := fun _ hr =>
  let ⟨_, _, hp⟩ := PyValue.exists_left_of_forall₂ h.records_eq hr
  wf_readPath hp

/-- What is loaded is determined by the files. -/
theorem Loaded.unique {args : Args} {key key' : Option P.PublicKey}
    {checkpoint checkpoint' : Option PyValue} {records records' : List PyValue}
    (h : Loaded P files args key checkpoint records)
    (h' : Loaded P files args key' checkpoint' records') :
    key = key' ∧ checkpoint = checkpoint' ∧ records = records' :=
  ⟨Option.some.inj (h.key_eq.symm.trans h'.key_eq),
    Option.some.inj (h.checkpoint_eq.symm.trans h'.checkpoint_eq),
    Option.some.inj ((mapM_eq_some_iff.mpr h.records_eq).symm.trans
      (mapM_eq_some_iff.mpr h'.records_eq))⟩

/-- The core's verdicts on what was loaded, one for each line. -/
def verdicts (P : Platform) (args : Args) (key : Option P.PublicKey)
    (checkpoint : Option PyValue) (records : List PyValue) : List Bool :=
  records.map (fun r => verify P r key) ++
    if args.chain then [Corrlog.verifyChain P (.list records) key (checkpoint.getD .none)] else []

/-- What the usage error excludes. -/
theorem allowed_iff :
    ∀ {a b c : Bool}, ¬(a && !(b && c)) = true ↔ (a = true → b = true ∧ c = true) := by
  decide

theorem forall_verdicts {args : Args} {key : Option P.PublicKey} {checkpoint : Option PyValue}
    {records : List PyValue} :
    (∀ b ∈ verdicts P args key checkpoint records, b = true) ↔
      (∀ r ∈ records, verify P r key = true) ∧ (args.chain = true →
        Corrlog.verifyChain P (.list records) key (checkpoint.getD .none) = true) := by
  rw [verdicts, List.forall_mem_append, List.forall_mem_map]
  refine and_congr_right fun _ => ?_
  cases args.chain <;> simp

section

variable (hdumps : Implements dumps)

include hdumps

/-- The results for what was loaded are those of the core. -/
theorem results_fst {args : Args} {key : Option P.PublicKey} {checkpoint : Option PyValue}
    {records : List PyValue} (hwf : ∀ r ∈ records, r.WF) :
    (records.map (fun r => verifyRecord P dumps r key) ++
      if args.chain then [verifyChain P dumps (.list records) key (checkpoint.getD .none)]
      else []).map Prod.fst = verdicts P args key checkpoint records := by
  have hchain : (verifyChain P dumps (.list records) key (checkpoint.getD .none)).1 = true ↔
      Corrlog.verifyChain P (.list records) key (checkpoint.getD .none) = true :=
    verifyChain_iff hdumps ((PyValue.wf_list records).mpr hwf)
  rw [List.map_append, List.map_map, verdicts]
  congr 1
  · exact List.map_congr_left fun r hr =>
      Bool.eq_iff_iff.mpr (verifyRecord_iff hdumps (hwf r hr))
  · cases args.chain with
    | false => rfl
    | true => exact congrArg (fun b => [b]) (Bool.eq_iff_iff.mpr hchain)

/-- The lines are the core's verdicts on what was loaded. -/
theorem main_results_iff {args : Args} {bs : List Bool} :
    (∃ rs, main P dumps files args = .results rs ∧ rs.map Prod.fst = bs) ↔
      ∃ key checkpoint records, Loaded P files args key checkpoint records ∧
        bs = verdicts P args key checkpoint records := by
  constructor
  · rintro ⟨rs, hmain, rfl⟩
    rw [main] at hmain
    split at hmain
    next => cases hmain
    next hallowed =>
      cases hres : mainResults P dumps files args with
      | none => rw [hres] at hmain; cases hmain
      | some rs' =>
          rw [hres] at hmain
          cases hmain
          obtain ⟨key, hkey, h⟩ := Option.bind_eq_some_iff.mp hres
          obtain ⟨checkpoint, hcheck, h⟩ := Option.bind_eq_some_iff.mp h
          obtain ⟨records, hrecords, h⟩ := Option.bind_eq_some_iff.mp h
          have hloaded : Loaded P files args key checkpoint records :=
            ⟨allowed_iff.mp hallowed, hkey, hcheck, mapM_eq_some_iff.mp hrecords⟩
          rw [← Option.some.inj h]
          exact ⟨key, checkpoint, records, hloaded, results_fst hdumps hloaded.wf⟩
  · rintro ⟨key, checkpoint, records, h, rfl⟩
    refine ⟨_, ?_, results_fst hdumps h.wf⟩
    rw [main, if_neg (allowed_iff.mpr h.allowed), mainResults, h.key_eq, h.checkpoint_eq,
      mapM_eq_some_iff.mpr h.records_eq]
    rfl

/-- The exit code is 0 if all is loaded and every verdict is good. -/
theorem code_eq_zero_iff {args : Args} :
    (main P dumps files args).code = 0 ↔ ∃ key checkpoint records,
      Loaded P files args key checkpoint records ∧ (∀ r ∈ records, verify P r key = true) ∧
        (args.chain = true →
          Corrlog.verifyChain P (.list records) key (checkpoint.getD .none) = true) := by
  have hcode : (main P dumps files args).code = 0 ↔
      ∃ bs, (∃ rs, main P dumps files args = .results rs ∧ rs.map Prod.fst = bs) ∧
        ∀ b ∈ bs, b = true := by
    cases main P dumps files args with
    | usage => simp [Outcome.code]
    | failed => simp [Outcome.code]
    | results rs => simp [Outcome.code]
  rw [hcode]
  simp only [main_results_iff hdumps]
  constructor
  · rintro ⟨_, ⟨key, checkpoint, records, h, rfl⟩, hall⟩
    exact ⟨key, checkpoint, records, h, forall_verdicts.mp hall⟩
  · rintro ⟨key, checkpoint, records, h, hall⟩
    exact ⟨_, ⟨key, checkpoint, records, h, rfl⟩, forall_verdicts.mpr hall⟩

end

/-- The exit code is 2 for a checkpoint that nothing would be compared with.  If
everything can be loaded, each line says what the core says, and the exit code is 0
exactly if the core accepts every record and, with `--chain`, the chain. -/
theorem main_verdicts (hdumps : Implements dumps) (args : Args) :
    ((main P dumps files args).code = 2 ↔
      (given args.checkpoint).isSome ∧ ¬(args.chain = true ∧ (given args.key).isSome)) ∧
    (∀ bs, (∃ rs, main P dumps files args = .results rs ∧ rs.map Prod.fst = bs) ↔
      ∃ key checkpoint records, Loaded P files args key checkpoint records ∧
        bs = verdicts P args key checkpoint records) ∧
    ((main P dumps files args).code = 0 ↔ ∃ key checkpoint records,
      Loaded P files args key checkpoint records ∧ (∀ r ∈ records, verify P r key = true) ∧
        (args.chain = true →
          Corrlog.verifyChain P (.list records) key (checkpoint.getD .none) = true)) := by
  refine ⟨?_, fun bs => main_results_iff hdumps, code_eq_zero_iff hdumps⟩
  rw [← Classical.not_imp, ← allowed_iff, not_not, main]
  split
  next h => exact iff_of_true rfl h
  next h =>
    refine iff_of_false (fun hcode => ?_) h
    split at hcode
    next rs _ =>
      rw [Outcome.code] at hcode
      split at hcode <;> cases hcode
    next => cases hcode

end

/-! ## Published chains -/

/-- `path.write_text(json.dumps(v))` has been run. -/
def Written (files : PyStr → Option Bytes) (path : PyStr) (v : PyValue) : Prop :=
  ∃ t, Python.dumps [' '] v = .ok t ∧ files path = some (utf8 t)

/-- A file that was written by `json.dumps` is read back. -/
theorem readPath_written {files : PyStr → Option Bytes} {path : PyStr} {v : PyValue} (hwf : v.WF)
    (hj : v.JsonAble) (h : Written files path v) : readPath files path = some (listed v) := by
  obtain ⟨t, ht, hf⟩ := h
  obtain ⟨t', ht', hr⟩ := reads_dumps strictDecoder_plain isWs_space hwf hj
  cases ht.symm.trans ht'
  rw [readPath, hf, Option.bind_some, readJson, readText_utf8 (wire_noReturn (.dumps ht))]
  exact hr.loads

/-- A dict of strings and numbers is read as it was written. -/
theorem readPath_dictOf {files : PyStr → Option Bytes} {path : PyStr}
    {kvs : List (String × PyValue)} (hwf : (dictOf kvs).WF) (hj : ∀ kv ∈ kvs, kv.2.JsonAble)
    (hflat : ∀ kv ∈ kvs, listed kv.2 = kv.2) (h : Written files path (dictOf kvs)) :
    readPath files path = some (dictOf kvs) := by
  rw [readPath_written hwf (PyValue.jsonAble_members.mpr hj) h, dictOf, listed_dict]
  congr 2
  refine (List.map_congr_left fun kv hkv => ?_).trans (List.map_id _)
  have h := (forall_mem_members (p := fun kv => listed kv.2 = kv.2)).mpr hflat kv hkv
  exact Prod.ext rfl h

/-- What `public_key_b64url` writes loads as the key. -/
theorem loadPubFromFile_written {P : Platform} {files : PyStr → Option Bytes} {path : PyStr}
    {pk : P.PublicKey}
    (h : Written files path (dictOf [("publicKey", .str (ofChars (publicKeyB64url P pk)))])) :
    loadPubFromFile P files path = some pk := by
  refine loadPubFromFile_eq_some.mpr (Or.inr ⟨_, readPath_dictOf ?_ ?_ ?_ h, rfl⟩)
  · rw [dictOf, PyValue.wf_members]
    simp
  · exact List.forall_mem_singleton.mpr (noSurrogates_ofChars _)
  · exact List.forall_mem_singleton.mpr rfl

theorem checkpointDict_wf {n : ℕ} {g h : PyStr} : (checkpointDict n g h).WF := by
  rw [checkpointDict, dictOf, PyValue.wf_members]
  simp

theorem checkpointDict_jsonAble {P : Platform} {n : ℕ} (hn : n < 2 ^ 53) {x y : Bytes} :
    (checkpointDict n (digestText P x) (digestText P y)).JsonAble := by
  refine PyValue.jsonAble_members.mpr ?_
  simp only [List.forall_mem_cons]
  exact ⟨Binary64.isFinite_ofInt hn, noSurrogates_ofChars _, noSurrogates_ofChars _,
    List.forall_mem_nil _⟩

/-- A checkpoint is read back if binary64 has its length exactly. -/
theorem readPath_checkpoint {P : Platform} {files : PyStr → Option Bytes} {path : PyStr} {n : ℕ}
    (hn : n < 2 ^ 53) {x y : Bytes}
    (hw : Written files path (checkpointDict n (digestText P x) (digestText P y))) :
    readPath files path = some (checkpointDict n (digestText P x) (digestText P y)) := by
  refine readPath_dictOf checkpointDict_wf
    (PyValue.jsonAble_members.mp (checkpointDict_jsonAble hn)) ?_ hw
  simp only [List.forall_mem_cons]
  exact ⟨rfl, rfl, rfl, List.forall_mem_nil _⟩

section

variable {P : Platform} {dumps : PyValue → Except PyErr Bytes} {files : PyStr → Option Bytes}

/-- The files that were read hold the records `B`. -/
def Holding (files : PyStr → Option Bytes) (paths : List PyStr) (B : List PyObject) : Prop :=
  List.Forall₂ (fun path b => readPath files path = some b.val) paths B

theorem exists_objects {vs : List PyValue} (h : ∀ v ∈ vs, v.WF) :
    ∃ B : List PyObject, vs = B.map PyObject.val :=
  ⟨vs.pmap PyObject.mk h, by rw [List.map_pmap, List.pmap_eq_map, List.map_id']⟩

/-- Files in either wire form hold records with the same bytes. -/
theorem holding_of_wire {paths : List PyStr} {A : List PyObject} (hj : ∀ a ∈ A, a.val.JsonAble)
    (h : List.Forall₂ (fun path (a : PyObject) => ∃ b, Wire a.val b ∧ files path = some b) paths A) :
    ∃ B, Holding files paths B ∧
      A.map (fun r => canonicalJson r.val) = B.map fun r => canonicalJson r.val := by
  induction h with
  | nil => exact ⟨[], .nil, rfl⟩
  | @cons path a paths A hw _ ih =>
      obtain ⟨ha, hj⟩ := List.forall_mem_cons.mp hj
      obtain ⟨B, hB, hmap⟩ := ih hj
      obtain ⟨b, hb, hfile⟩ := hw
      obtain ⟨w, hw, hwf, _, hcanon⟩ := readJson_wire a.wf ha hb
      refine ⟨⟨w, hwf⟩ :: B, .cons ?_ hB, ?_⟩
      · rw [readPath, hfile]
        exact hw
      · rw [List.map_cons, List.map_cons, hmap, hcanon]

/-- With the key and the checkpoint of a chain, as their owner writes them, the exit
code is 0 for the files that hold this chain and for no others.  These are files in
either wire form of its records, among others. -/
theorem published_chain (hdumps : Implements dumps) {A : List PyObject} {pk : P.PublicKey}
    (hA : Corrlog.verifyChain P (pyList A) (some pk) .none = true) (hlen : A.length < 2 ^ 53)
    {args : Args} {keyPath checkpointPath : PyStr} {checkpoint : PyValue}
    (hkey : given args.key = some keyPath)
    (hcheck : given args.checkpoint = some checkpointPath) (hchain : args.chain = true)
    (hpub : Written files keyPath (dictOf [("publicKey", .str (ofChars (publicKeyB64url P pk)))]))
    (hc : chainCheckpoint P (pyList A) = .ok checkpoint)
    (hcp : Written files checkpointPath checkpoint)
    (hcoll : ∀ B, Holding files args.files B → NoCollision P A B) :
    ((main P dumps files args).code = 0 ↔ ∃ B, Holding files args.files B ∧
      A.map (fun r => canonicalJson r.val) = B.map fun r => canonicalJson r.val) ∧
    (List.Forall₂ (fun path (a : PyObject) => ∃ b, Wire a.val b ∧ files path = some b) args.files A →
      (main P dumps files args).code = 0) := by
  have hist := ((Corrlog.verifyChain_iff P).mp hA).1
  obtain ⟨_, _, x, y, _, _, _, _, hdesc⟩ := describe_of_history P hist
  have hcd : checkpoint = checkpointDict (A.map PyObject.val).length (digestText P x)
      (digestText P y) := by
    rw [pyList, chainCheckpoint_eq P hist, hdesc, Except.ok.injEq] at hc
    exact hc.symm
  have hread : readPath files checkpointPath = some checkpoint := by
    rw [hcd] at hcp ⊢
    exact readPath_checkpoint (by simpa using hlen) hcp
  have hkeyEq : loadOption (loadPubFromFile P files) args.key = some (some pk) := by
    rw [loadOption, hkey]
    exact congrArg (Option.map some) (loadPubFromFile_written hpub)
  have hcheckEq : loadOption (readPath files) args.checkpoint = some (some checkpoint) := by
    rw [loadOption, hcheck]
    exact congrArg (Option.map some) hread
  have hloaded (B : List PyObject) (hB : Holding files args.files B) :
      Loaded P files args (some pk) (some checkpoint) (B.map PyObject.val) :=
    ⟨fun _ => ⟨hchain, by rw [hkey]; rfl⟩, hkeyEq, hcheckEq, List.forall₂_map_right_iff.mpr hB⟩
  have hbind (B : List PyObject) (hB : Holding files args.files B) :
      Corrlog.verifyChain P (pyList B) (some pk) checkpoint = true ↔
        A.map (fun r => canonicalJson r.val) = B.map fun r => canonicalJson r.val := by
    have h := verifyChain_checkpoint P hA hc (hcoll B hB)
    rwa [List.map_map, List.map_map] at h
  have hiff : (main P dumps files args).code = 0 ↔ ∃ B, Holding files args.files B ∧
      A.map (fun r => canonicalJson r.val) = B.map fun r => canonicalJson r.val := by
    rw [code_eq_zero_iff hdumps]
    constructor
    · rintro ⟨key, check, records, h, _, hacc⟩
      cases hkeyEq.symm.trans h.key_eq
      cases hcheckEq.symm.trans h.checkpoint_eq
      obtain ⟨B, rfl⟩ := exists_objects h.wf
      have hB : Holding files args.files B :=
        (List.forall₂_map_right_iff (f := PyObject.val)
          (R := fun path r => readPath files path = some r)).mp h.records_eq
      exact ⟨B, hB, (hbind B hB).mp (hacc hchain)⟩
    · rintro ⟨B, hB, hmap⟩
      have hacc := (hbind B hB).mpr hmap
      exact ⟨_, _, _, hloaded B hB, ((Corrlog.verifyChain_iff P).mp hacc).1.ok, fun _ => hacc⟩
  refine ⟨hiff, fun hw => hiff.mpr (holding_of_wire (fun a ha => ?_) hw)⟩
  exact jsonAble_of_verify P a.wf (hist.ok _ (List.mem_map_of_mem ha))

end

/-- The files to which values were written. -/
def disk (written : List (PyStr × PyValue)) (path : PyStr) : Option Bytes :=
  (written.lookup path).bind fun v => (Python.dumps [' '] v).toOption.map utf8

theorem written_disk {written : List (PyStr × PyValue)} {path : PyStr} {v : PyValue}
    (hv : written.lookup path = some v) (hwf : v.WF) (hj : v.JsonAble) :
    Written (disk written) path v := by
  obtain ⟨t, ht, _⟩ := reads_dumps Decoder.default_plain isWs_space hwf hj
  exact ⟨t, ht, by rw [disk, hv, Option.bind_some, ht]; rfl⟩

/-- A command line for the two vectors. -/
def vectorArgs : Args where
  files := [lit "root.json", lit "correction.json"]
  files_ne := List.cons_ne_nil _ _
  trust := .key (lit "trusted-key.json")
  chain := true
  checkpoint := some (lit "checkpoint.json")

/-- The vectors, their key and a checkpoint under the names of the command line. -/
def vectorFiles (checkpoint : PyValue) : List (PyStr × PyValue) :=
  [(lit "root.json", Vector.action), (lit "correction.json", Vector.correction),
    (lit "trusted-key.json", dictOf [("publicKey",
      .str (ofChars (publicKeyB64url Vector.platform Vector.publicKey)))]),
    (lit "checkpoint.json", checkpoint)]

/-- The files hold the vectors as `json.dumps` writes them. -/
theorem vectorFiles_wire (checkpoint : PyValue) :
    List.Forall₂ (fun path (a : PyObject) =>
      ∃ b, Wire a.val b ∧ disk (vectorFiles checkpoint) path = some b)
      vectorArgs.files Vector.records := by
  have hwire {path : PyStr} {a : PyObject} (ha : a ∈ Vector.records)
      (hpath : (vectorFiles checkpoint).lookup path = some a.val) :
      ∃ b, Wire a.val b ∧ disk (vectorFiles checkpoint) path = some b := by
    have hj := (jsonAble_iff_canonicalJson a.wf).mpr ⟨_, Vector.canonicalJson_records a ha⟩
    obtain ⟨t, ht, hf⟩ := written_disk hpath a.wf hj
    exact ⟨_, .dumps ht, hf⟩
  exact .cons (hwire List.mem_cons_self rfl)
    (.cons (hwire (List.mem_cons_of_mem _ List.mem_cons_self) rfl) .nil)

/-- Both vectors verify. -/
theorem main_verdicts_vectors :
    (main Vector.platform canonicalJson (disk (vectorFiles .none))
      { vectorArgs with trust := .signatureOnly, checkpoint := none }).code = 0 := by
  have hj : ∀ a ∈ Vector.records, a.val.JsonAble := fun a ha =>
    (jsonAble_iff_canonicalJson a.wf).mpr ⟨_, Vector.canonicalJson_records a ha⟩
  obtain ⟨B, hB, hmap⟩ := holding_of_wire hj (vectorFiles_wire .none)
  have hist := ((Corrlog.verifyChain_iff Vector.platform).mp Vector.verifyChain_vectors).1
  have halike := forall₂_alike_of_map_eq (A := Vector.records) (B := B) Vector.platform hist.ok (by
    rwa [List.map_map, List.map_map])
  have hchain : Corrlog.verifyChain Vector.platform (pyList B) none .none = true :=
    verifyChain_of_alike Vector.platform halike
      ((Corrlog.verifyChain_iff Vector.platform).mpr ⟨history_none Vector.platform hist, rfl⟩)
  refine (main_verdicts implements_canonicalJson _).2.2.mpr ⟨none, none, B.map PyObject.val,
    ⟨(nomatch ·), rfl, rfl, List.forall₂_map_right_iff.mpr hB⟩, ?_, fun _ => hchain⟩
  exact ((Corrlog.verifyChain_iff Vector.platform).mp hchain).1.ok

/-- Files that are read hold one list of records. -/
theorem holding_unique {files : PyStr → Option Bytes} {paths : List PyStr} {A B : List PyObject}
    (hA : Holding files paths A) (hB : Holding files paths B) : A = B := by
  induction hA generalizing B with
  | nil => exact (List.forall₂_nil_left_iff.mp hB).symm
  | cons ha _ ih =>
      obtain ⟨b, B', hb, hB', rfl⟩ := List.forall₂_cons_left_iff.mp hB
      rw [ih hB', PyObject.val_inj.mp (Option.some.inj (ha.symm.trans hb))]

/-- The vectors are accepted under their key and their checkpoint. -/
theorem published_chain_vectors :
    ∃ checkpoint, chainCheckpoint Vector.platform (pyList Vector.records) = .ok checkpoint ∧
      (main Vector.platform canonicalJson (disk (vectorFiles checkpoint)) vectorArgs).code = 0 := by
  have hist := ((Corrlog.verifyChain_iff Vector.platform).mp Vector.verifyChain_vectors).1
  obtain ⟨_, _, x, y, _, _, _, _, hdesc⟩ := describe_of_history Vector.platform hist
  have hc := (chainCheckpoint_eq Vector.platform hist).trans hdesc
  refine ⟨_, hc, ?_⟩
  have hfiles := vectorFiles_wire (checkpointDict (Vector.records.map PyObject.val).length
    (digestText Vector.platform x) (digestText Vector.platform y))
  have hj : ∀ a ∈ Vector.records, a.val.JsonAble := fun a ha =>
    (jsonAble_iff_canonicalJson a.wf).mpr ⟨_, Vector.canonicalJson_records a ha⟩
  obtain ⟨B, hB, hmap⟩ := holding_of_wire hj hfiles
  have hkey : given vectorArgs.key = some (lit "trusted-key.json") := rfl
  have hcheck : given vectorArgs.checkpoint = some (lit "checkpoint.json") := rfl
  refine (published_chain implements_canonicalJson (A := Vector.records) Vector.verifyChain_vectors
    (show 2 < 2 ^ 53 by norm_num) hkey hcheck rfl ?_ hc ?_ ?_).2 hfiles
  · refine written_disk rfl ?_ ?_
    · rw [dictOf, PyValue.wf_members]
      simp
    · exact PyValue.jsonAble_members.mpr (List.forall_mem_singleton.mpr (noSurrogates_ofChars _))
  · exact written_disk rfl checkpointDict_wf (checkpointDict_jsonAble (show 2 < 2 ^ 53 by norm_num))
  · intro B' hB'
    rw [← holding_unique hB hB']
    exact Vector.noCollision_of_map hmap

end Corrlog.Standalone
