import Corrlog.Core.Reader
import Corrlog.Python.Reload

/-!
# What `append` stores

A dict that `json.dumps` can write is one more value of the file, whatever the file
held before, as long as `all` could read it (`all_append`).  The value is what
`json.loads` makes of the text, `reloaded`: a record of JSON values comes back as it
was if and only if none of its strings has a surrogate pair (`storage`).

`append` writes the text before it opens the file, so a record that `json.dumps`
refuses leaves the file as it was.
-/

namespace Corrlog

open Python

/-! ## The code -/

/-- `JsonlSink.append`: how it ends and the file it leaves. -/
def appendTo (file : Option Bytes) (r : PyValue) : Except PyErr Unit × Option Bytes :=
  match recordLine r with
  | .error e => (.error e, file)
  | .ok line => (.ok (), some (content file ++ (separator (content file) ++ line)))

/-- The file of an append that returns. -/
theorem append_eq (file : Option Bytes) (r : PyValue) :
    append file r = (appendTo file r).1.map fun _ => (appendTo file r).2 := by
  rw [append, addedBytes, appendTo]
  cases recordLine r <;> rfl

/-! ## Appended records -/

theorem recordLine_eq_ok {r : PyValue} {line : Bytes} (h : recordLine r = .ok line) :
    ∃ t, dumps [] r = .ok t ∧ line = utf8 (t ++ ['\n']) := by
  obtain ⟨t, ht, rfl⟩ := map_eq_ok.mp h
  exact ⟨t, ht, rfl⟩

/-- The text of a dict. -/
theorem dumps_braces {r : PyValue} (hd : r.isDict = true) {t : List Char} (h : dumps [] r = .ok t) :
    ∃ s, t = '{' :: (s ++ ['}']) := by
  obtain ⟨items, rfl⟩ := PyValue.exists_dict_of_isDict hd
  rw [dumps] at h
  obtain ⟨ts, _, rfl⟩ := map_eq_ok.mp h
  exact ⟨_, rfl⟩

/-- It is read as what `json.loads` makes of it. -/
theorem readLine_dumps {r : PyValue} (hd : r.isDict = true) {t : List Char} (h : dumps [] r = .ok t)
    (acc : List PyValue × ℕ) : readLine acc t = (acc.1 ++ [reloaded r], acc.2) := by
  obtain ⟨s, hs⟩ := dumps_braces hd h
  have hreads := reads_dumps_reloaded isWs_nil h
  rw [hs] at hreads ⊢
  exact readLine_object hreads acc

theorem all_content {file : Option Bytes} {acc : List PyValue × ℕ} (h : all file = .ok acc) :
    all (some (content file)) = .ok acc := by
  cases file with
  | some b => exact h
  | none =>
      rw [← h]
      exact all_utf8 []

/-- A line written where a line starts adds its record to what `all` returns. -/
theorem all_added {b sep : Bytes} {acc : List PyValue × ℕ} (h : all (some b) = .ok acc)
    (hsep : Starts b sep) {r : PyValue} (hd : r.isDict = true) {line : Bytes}
    (hline : recordLine r = .ok line) :
    all (some (b ++ (sep ++ line))) = .ok (acc.1 ++ [reloaded r], acc.2) := by
  obtain ⟨t, ht, rfl⟩ := recordLine_eq_ok hline
  have hascii := dumps_ascii (forall_ascii rfl) ht
  have hwhole : t.take ((sep ++ utf8 (t ++ ['\n'])).length - sep.length) = t := by
    refine List.take_of_length_le ?_
    rw [List.length_append, Nat.add_sub_cancel_left, length_utf8_ascii (line_ascii hascii),
      List.length_append]
    exact Nat.le_add_right _ _
  have hcut := all_cut h hsep hascii (sep ++ utf8 (t ++ ['\n'])).length
  rw [List.take_length, hwhole, readLine_dumps hd ht] at hcut
  exact hcut

/-- So does an append. -/
theorem all_append {file : Option Bytes} {acc : List PyValue × ℕ} (h : all file = .ok acc)
    {r : PyValue} (hd : r.isDict = true) {line : Bytes} (hline : recordLine r = .ok line) :
    all (some (content file ++ (separator (content file) ++ line))) =
      .ok (acc.1 ++ [reloaded r], acc.2) :=
  all_added (all_content h) (starts_separator _) hd hline

theorem recordLine_serializable {r : PyValue} :
    (∃ line, recordLine r = .ok line) ↔ serializable r = true := by
  exact exists_map_eq_ok.trans (dumps_eq_ok r)

/-- An append adds one value to what `all` returns, which is the record if and only
if none of its strings has a high surrogate directly before a low one.  An append of
what cannot be written raises and leaves the file. -/
theorem storage (file : Option Bytes) :
    (∀ (r : PyObject) out n, all file = .ok (out, n) →
      r.val.isDict = true → JsonOf anyText r.val → ∃ file', appendTo file r.val = (.ok (), file') ∧
        ((∃ v n', all file' = .ok (out ++ [v], n') ∧ v.pyEq (listed r.val) = true) ↔
          JsonOf pairFree r.val) ∧
        (JsonOf pairFree r.val → all file' = .ok (out ++ [listed r.val], n))) ∧
    ∀ v, serializable v = false → ∃ e, appendTo file v = (.error e, file) := by
  constructor
  · intro r out n hall hd hj
    obtain ⟨line, hline⟩ := recordLine_serializable.mpr (serializable_of_jsonOf hj)
    have hall' := all_append hall hd hline
    refine ⟨_, by rw [appendTo, hline], ?_, fun h => ?_⟩
    · rw [← pyEq_reloaded_iff r.wf hj]
      constructor
      · intro ⟨v, n', hv, heq⟩
        rw [hall', Except.ok.injEq, Prod.mk.injEq] at hv
        rwa [List.singleton_inj.mp (List.append_cancel_left hv.1)]
      · exact fun h => ⟨_, n, hall', h⟩
    · rw [hall', reloaded_eq_listed r.wf h]
  · intro v h
    cases hline : recordLine v with
    | error e => exact ⟨e, by rw [appendTo, hline]⟩
    | ok line =>
        rw [recordLine_serializable.mp ⟨line, hline⟩] at h
        cases h

/-- The record `{"a": s}`. -/
def textRecord (s : PyStr) : PyObject where
  val := dictOf [("a", .str s)]
  wf := PyValue.wf_members.mpr ⟨List.nodup_singleton _, List.forall_mem_singleton.mpr rfl⟩

theorem reloaded_textRecord (s : PyStr) :
    reloaded (textRecord s).val = (textRecord (joined s)).val := by
  show reloaded (.dict (strItems [(lit "a", .str s)])) = _
  have hnd : (([(lit "a", reloaded (.str s))] : List (PyStr × PyValue)).map Prod.fst).Nodup :=
    List.nodup_singleton _
  rw [reloaded_strItems, List.map_singleton, joined_eq (pairFree_of_noSurrogates rfl),
    merged_of_nodup hnd]
  rfl

/-- A lone surrogate comes back. -/
theorem storage_lone : ∃ file', appendTo none (textRecord [.surrogate 61]).val = (.ok (), file') ∧
    all file' = .ok ([listed (textRecord [.surrogate 61]).val], 0) := by
  obtain ⟨file', hfile, _, hall⟩ := (storage none).1 (textRecord [.surrogate 61]) [] 0 rfl rfl rfl
  exact ⟨file', hfile, hall rfl⟩

/-- `U+D83D` and `U+DE00` come back as `U+1F600`. -/
theorem storage_pair : ∃ file',
    appendTo none (textRecord [.surrogate 61, .surrogate 1536]).val = (.ok (), file') ∧
    all file' = .ok ([(textRecord [.scalar (Char.ofNat 0x1F600)]).val], 0) ∧
    PyValue.pyEq (textRecord [.scalar (Char.ofNat 0x1F600)]).val
      (listed (textRecord [.surrogate 61, .surrogate 1536]).val) = false := by
  obtain ⟨line, hline⟩ := recordLine_serializable.mpr
    (show serializable (textRecord [.surrogate 61, .surrogate 1536]).val = true from rfl)
  have hnone : all none = .ok ([], 0) := rfl
  have hall := all_append hnone rfl hline
  have hpair : joined [.surrogate 61, .surrogate 1536] = [.scalar (Char.ofNat 0x1F600)] := by
    decide +kernel
  rw [reloaded_textRecord, hpair] at hall
  exact ⟨_, by rw [appendTo, hline], hall, by decide +kernel⟩

end Corrlog
