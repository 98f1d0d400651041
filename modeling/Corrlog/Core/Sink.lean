import Corrlog.Core.Wire
import Corrlog.Python.TextFile

/-!
# The JSONL sink

`append` writes one line, after a newline if the last line of the file has none.
`all` reads the lines back and skips those that do not parse.

A killed append leaves a prefix of the bytes it would have added.  `CrashRun` is
a run of appends from a missing or empty file, each of which completes or is
killed.  Its invariant says that the file, once its last line is closed, is the
list of the nonempty pieces the appends left, one piece a line
(`CrashRun.lines`).  A piece that is a whole JSON text is read back, and a
shorter one is skipped: no proper prefix of an object is JSON (`loads_prefix`).
-/

namespace Corrlog

open Python

/-! ## The code -/

/-- The line of a record: compact JSON and a newline. -/
def recordLine (r : PyValue) : Except PyErr Bytes := (dumps [] r).map fun t => utf8 (t ++ ['\n'])

/-- The newline an unterminated last line lacks. -/
def separator (content : Bytes) : Bytes :=
  if content = [] ∨ content.getLast? = some 10 then [] else [10]

/-- The bytes `append` adds to a file. -/
def addedBytes (content : Bytes) (r : PyValue) : Except PyErr Bytes :=
  (recordLine r).map fun line => separator content ++ line

/-- The content of a file, empty if it is missing. -/
def content (file : Option Bytes) : Bytes := file.getD []

/-- `JsonlSink.append`. -/
def append (file : Option Bytes) (r : PyValue) : Except PyErr (Option Bytes) :=
  (addedBytes (content file) r).map fun added => some (content file ++ added)

/-- One line of `JsonlSink.all`: the records so far and the damaged lines. -/
def readLine (acc : List PyValue × ℕ) (line : List Char) : List PyValue × ℕ :=
  if strip line = [] then acc
  else
    match loads .default (strip line) with
    | some v => (acc.1 ++ [v], acc.2)
    | none => (acc.1, acc.2 + 1)

/-- `JsonlSink.all`, with the number of damaged lines. -/
def all (file : Option Bytes) : Except PyErr (List PyValue × ℕ) :=
  match file with
  | none => .ok ([], 0)
  | some b =>
      match readText b with
      | some s => .ok ((textLines s).foldl readLine ([], 0))
      | none => builtinError .UnicodeError

/-! ## Prefixes of an object -/

/-- No proper prefix of the text of an object is JSON. -/
theorem loads_prefix {D : Decoder} {p q : List Char} {v : PyValue} (h : Reads D ('{' :: (p ++ q)) v)
    (hq : q ≠ []) : loads D ('{' :: p) = none := by
  cases hl : loads D ('{' :: p) with
  | none => rfl
  | some w =>
      rw [loads, if_neg (by simp)] at hl
      obtain ⟨⟨w', r⟩, hs, _⟩ := Option.bind_eq_some_iff.mp hl
      rw [skipWs_of_not_ws rfl] at hs
      -- the object that ends within the prefix also ends there in the whole text
      have hlong := (scan_append _ (('{' :: (p ++ q)).length + 1) (by simp) q).1 _ _ hs
        (Or.inl rfl)
      have hwhole := h.scan [] terminated_nil _ (Nat.lt_succ_self _)
      rw [List.append_nil] at hwhole
      rw [List.cons_append, hwhole, Option.some.injEq, Prod.mk.injEq] at hlong
      exact absurd (List.append_eq_nil_iff.mp hlong.2.symm).2 hq

/-! ## Records -/

/-- The line of a printable text is ASCII. -/
theorem line_ascii {t : List Char} (ht : ∀ c ∈ t, asciiChar c) :
    ∀ c ∈ t ++ ['\n'], c.toNat < 128 := by
  intro c hc
  rcases List.mem_append.mp hc with hc | hc
  · exact lt_trans (ht c hc).2 (by decide)
  · rw [List.mem_singleton.mp hc]
    decide

/-- A dict that `canonical_json` accepts. -/
structure DictRecord where
  val : PyValue
  wf : val.WF
  isDict : ∃ items, val = .dict items
  accepted : ∃ b, canonicalJson val = .ok b

namespace DictRecord

/-- The JSON text `append` writes. -/
def text (r : DictRecord) : List Char := ((dumps [] r.val).toOption).getD []

/-- `json.loads(json.dumps(r))`. -/
def reload (r : DictRecord) : Option PyValue := ((dumps [' '] r.val).toOption).bind (loads .default)

theorem jsonAble (r : DictRecord) : r.val.JsonAble :=
  (jsonAble_iff_canonicalJson r.wf).mpr r.accepted

theorem dumps_eq (r : DictRecord) : dumps [] r.val = .ok r.text := by
  obtain ⟨t, ht, _⟩ := reads_dumps Decoder.default_plain isWs_nil r.wf r.jsonAble
  rw [text, ht]
  rfl

theorem reads (r : DictRecord) : Reads .default r.text (listed r.val) := by
  obtain ⟨t, ht, hr⟩ := reads_dumps Decoder.default_plain isWs_nil r.wf r.jsonAble
  cases r.dumps_eq.symm.trans ht
  exact hr

/-- The separators make no difference. -/
theorem reload_eq (r : DictRecord) : r.reload = some (listed r.val) := by
  obtain ⟨t, ht, hr⟩ := reads_dumps Decoder.default_plain isWs_space r.wf r.jsonAble
  rw [reload, ht]
  exact hr.loads

theorem text_ascii (r : DictRecord) : ∀ c ∈ r.text, asciiChar c :=
  dumps_ascii (forall_ascii rfl) r.dumps_eq

/-- The text starts with a brace and ends with one. -/
theorem text_braces (r : DictRecord) : ∃ s, r.text = '{' :: (s ++ ['}']) := by
  obtain ⟨items, hi⟩ := r.isDict
  have h := r.dumps_eq
  rw [hi, dumps] at h
  obtain ⟨ts, _, hts⟩ := map_eq_ok.mp h
  exact ⟨_, hts.symm⟩

theorem text_ne_nil (r : DictRecord) : r.text ≠ [] := by
  obtain ⟨s, hs⟩ := r.text_braces
  rw [hs]
  exact List.cons_ne_nil _ _

theorem recordLine_eq (r : DictRecord) : recordLine r.val = .ok (utf8 (r.text ++ ['\n'])) := by
  rw [recordLine, r.dumps_eq]
  rfl

end DictRecord

/-! ## Runs with crashes -/

/-- One append of a run.  `left` is the number of bytes of its line that reached
the file if it was killed. -/
structure Attempt where
  record : DictRecord
  left : Option ℕ

namespace Attempt

/-- What of the JSON text reached the file. -/
def piece (a : Attempt) : List Char :=
  match a.left with
  | none => a.record.text
  | some j => a.record.text.take j

/-- The whole JSON text reached the file. -/
def whole (a : Attempt) : Bool :=
  match a.left with
  | none => true
  | some j => decide (a.record.text.length ≤ j)

/-- At least one byte of the JSON text reached the file, but not all of it. -/
def damaged (a : Attempt) : Bool :=
  match a.left with
  | none => false
  | some j => decide (0 < j ∧ j < a.record.text.length)

end Attempt

/-- The file after a sequence of appends, each of which completes or is killed. -/
inductive CrashRun : List Attempt → Option Bytes → Prop
  | missing : CrashRun [] none
  | empty : CrashRun [] (some [])
  | completed {log : List Attempt} {file file' : Option Bytes} (r : DictRecord) :
      CrashRun log file → append file r.val = .ok file' → CrashRun (log ++ [⟨r, none⟩]) file'
  | killed {log : List Attempt} {file : Option Bytes} {added : Bytes} (r : DictRecord) (k : ℕ) :
      CrashRun log file → addedBytes (content file) r.val = .ok added → k < added.length →
      CrashRun (log ++ [⟨r, some (k - (separator (content file)).length)⟩])
        (some (content file ++ added.take k))
  | unopened {log : List Attempt} {file : Option Bytes} (r : DictRecord) :
      CrashRun log file → CrashRun (log ++ [⟨r, some 0⟩]) file

/-- The nonempty pieces a run left. -/
def pieces (log : List Attempt) : List (List Char) := (log.map Attempt.piece).filter (· ≠ [])

/-- Pieces as closed lines. -/
def closedLines (ps : List (List Char)) : List Char := ps.flatMap (· ++ ['\n'])

theorem pieces_concat (log : List Attempt) (a : Attempt) :
    pieces (log ++ [a]) = pieces log ++ if a.piece = [] then [] else [a.piece] := by
  rw [pieces, List.map_append, List.filter_append, pieces]
  congr 1
  by_cases h : a.piece = []
  · rw [if_pos h]
    simp [h]
  · rw [if_neg h]
    simp [h]

theorem closedLines_append (ps qs : List (List Char)) :
    closedLines (ps ++ qs) = closedLines ps ++ closedLines qs := List.flatMap_append

theorem utf8_newline : utf8 ['\n'] = [10] := by decide

theorem separator_cases (b : Bytes) : separator b = [] ∨ separator b = [10] := by
  rw [separator]
  split
  · exact Or.inl rfl
  · exact Or.inr rfl

/-- After a newline no separator is needed. -/
theorem separator_newline (b : Bytes) : separator (b ++ [10]) = [] := by
  rw [separator, if_pos (Or.inr List.getLast?_concat)]

/-- After printable text one is. -/
theorem separator_text (b : Bytes) {p : List Char} (hne : p ≠ []) (hp : ∀ c ∈ p, asciiChar c) :
    separator (b ++ utf8 p) = [10] := by
  have hascii : ∀ c ∈ p, c.toNat < 128 := fun c hc => lt_trans (hp c hc).2 (by decide)
  have hlast : (b ++ utf8 p).getLast? = some ((p.getLast hne).val.toUInt8) := by
    rw [utf8_ascii hascii, List.getLast?_append, List.getLast?_map,
      List.getLast?_eq_some_getLast hne]
    rfl
  have hne10 : (p.getLast hne).val.toUInt8 ≠ 10 := by
    intro h
    have hc := hp _ (List.getLast_mem hne)
    have hn : (p.getLast hne).toNat % 256 = 10 := congrArg UInt8.toNat h
    have h1 := hc.1
    have h2 := hc.2
    omega
  rw [separator, if_neg]
  rw [hlast]
  rintro (h | h)
  · rw [h] at hlast
    cases hlast
  · exact hne10 (Option.some.inj h)

/-- What `k` of the added bytes leave: the pieces, and one more if `k` reaches
into the line. -/
theorem lines_step {b : Bytes} {ps : List (List Char)}
    (h : b ++ separator b = utf8 (closedLines ps)) (r : DictRecord) {k : ℕ} {p : List Char}
    (hk : k ≤ (separator b ++ utf8 (r.text ++ ['\n'])).length)
    (hp : p = r.text.take (k - (separator b).length)) :
    (b ++ (separator b ++ utf8 (r.text ++ ['\n'])).take k) ++
        separator (b ++ (separator b ++ utf8 (r.text ++ ['\n'])).take k) =
      utf8 (closedLines (ps ++ if p = [] then [] else [p])) := by
  have hascii := line_ascii r.text_ascii
  rcases Nat.lt_or_ge (separator b).length k with hsep | hsep
  · obtain ⟨j, rfl⟩ := Nat.exists_eq_add_of_lt hsep
    rw [Nat.add_assoc] at hk hp ⊢
    rw [Nat.add_sub_cancel_left] at hp
    have hpne : p ≠ [] := by
      rw [hp, ne_eq, List.take_eq_nil_iff, not_or]
      exact ⟨by omega, r.text_ne_nil⟩
    rw [List.take_length_add_append, take_utf8_ascii hascii, ← List.append_assoc, h, if_neg hpne,
      closedLines_append]
    by_cases hj : j + 1 ≤ r.text.length
    · -- part of the text, or all of it, but no newline
      rw [List.take_append_of_le_length hj, ← hp, separator_text _ hpne (fun c hc =>
        r.text_ascii c (List.mem_of_mem_take (hp ▸ hc))), ← utf8_newline, ← utf8_append,
        ← utf8_append, List.append_assoc]
      simp [closedLines]
    · -- the line in full
      have hp' : p = r.text := by rw [hp, List.take_of_length_le (by omega)]
      have hline : (r.text ++ ['\n']).take (j + 1) = r.text ++ ['\n'] :=
        List.take_of_length_le (by simp only [List.length_append, List.length_singleton]; omega)
      rw [hline, hp', utf8_append r.text, utf8_newline, ← List.append_assoc, separator_newline,
        List.append_nil, ← utf8_newline, ← utf8_append, ← utf8_append, List.append_assoc]
      simp [closedLines]
  · -- no byte of the line was written
    have hp0 : p = [] := by rw [hp, Nat.sub_eq_zero_of_le hsep, List.take_zero]
    rw [List.take_append_of_le_length hsep, if_pos hp0, List.append_nil, ← h]
    rcases separator_cases b with hs | hs
    · rw [hs, List.take_nil, List.append_nil, hs, List.append_nil]
    · rw [hs] at hsep ⊢
      rcases Nat.le_one_iff_eq_zero_or_eq_one.mp hsep with rfl | rfl
      · rw [List.take_zero, List.append_nil, hs]
      · rw [List.take_of_length_le (by simp), separator_newline, List.append_nil]

theorem CrashRun.lines {log : List Attempt} {file : Option Bytes} (h : CrashRun log file) :
    content file ++ separator (content file) = utf8 (closedLines (pieces log)) := by
  induction h with
  | missing => rfl
  | empty => rfl
  | @completed log file file' r _ happ ih =>
      rw [append, addedBytes, r.recordLine_eq] at happ
      cases happ
      have hp : r.text = r.text.take ((separator (content file) ++ utf8 (r.text ++ ['\n'])).length -
          (separator (content file)).length) := by
        rw [List.take_of_length_le]
        rw [List.length_append, Nat.add_sub_cancel_left,
          length_utf8_ascii (line_ascii r.text_ascii),
          List.length_append]
        exact Nat.le_add_right _ _
      have hstep := lines_step ih r (le_refl _) hp
      rw [List.take_length] at hstep
      rw [pieces_concat]
      exact hstep
  | @killed log file added r k _ hadd hk ih =>
      rw [addedBytes, r.recordLine_eq] at hadd
      cases hadd
      rw [pieces_concat]
      exact lines_step ih r hk.le rfl
  | @unopened log file r _ ih =>
      rw [pieces_concat]
      simpa [Attempt.piece] using ih

/-! ## Reading the lines back -/

theorem readLine_congr {acc : List PyValue × ℕ} {l l' : List Char} (h : strip l = strip l') :
    readLine acc l = readLine acc l' := by
  rw [readLine, readLine, h]

/-- A line is read the same with and without its newline. -/
theorem strip_newline {p : List Char} (hne : p ≠ []) (hstart : isSpace (p.head hne) = false) :
    strip (p ++ ['\n']) = strip p := by
  obtain ⟨c, s, rfl⟩ := List.exists_cons_of_ne_nil hne
  have hc : ¬ isSpace c = true := by simpa using hstart
  rw [strip, strip, List.cons_append, List.dropWhile_cons_of_neg hc,
    List.dropWhile_cons_of_neg hc, ← List.cons_append, List.rdropWhile_concat_pos _ _ _ rfl]

section

variable {ps : List (List Char)}

theorem textLines_closedLines (hp : ∀ p ∈ ps, '\n' ∉ p) (s : List Char) :
    textLines (closedLines ps ++ s) = ps.map (· ++ ['\n']) ++ textLines s := by
  induction ps with
  | nil => rfl
  | cons p ps ih =>
      obtain ⟨hp, hps⟩ := List.forall_mem_cons.mp hp
      have happ : closedLines (p :: ps) ++ s = p ++ '\n' :: (closedLines ps ++ s) := by
        simp [closedLines]
      rw [happ, textLines_line hp, ih hps]
      rfl

/-- A piece: printable text that starts with a brace. -/
def IsPiece (p : List Char) : Prop := (∀ c ∈ p, asciiChar c) ∧ ∃ s, p = '{' :: s

theorem IsPiece.notMem {p : List Char} (h : IsPiece p) {c : Char} (hc : ¬ asciiChar c) : c ∉ p :=
  fun hm => hc (h.1 c hm)

theorem IsPiece.readLine_newline {p : List Char} (h : IsPiece p) (acc : List PyValue × ℕ) :
    readLine acc (p ++ ['\n']) = readLine acc p := by
  obtain ⟨s, rfl⟩ := h.2
  exact readLine_congr (strip_newline (List.cons_ne_nil _ _) rfl)

theorem foldl_readLine_newline (hp : ∀ p ∈ ps, IsPiece p) (acc : List PyValue × ℕ) :
    (ps.map (· ++ ['\n'])).foldl readLine acc = ps.foldl readLine acc := by
  induction ps generalizing acc with
  | nil => rfl
  | cons p ps ih =>
      obtain ⟨hp, hps⟩ := List.forall_mem_cons.mp hp
      rw [List.map_cons, List.foldl_cons, List.foldl_cons, hp.readLine_newline, ih hps]

theorem closedLines_noReturn (hp : ∀ p ∈ ps, IsPiece p) : '\r' ∉ closedLines ps := by
  intro h
  obtain ⟨p, hm, hc⟩ := List.mem_flatMap.mp h
  rcases List.mem_append.mp hc with hc | hc
  · exact (hp p hm).notMem (by decide) hc
  · exact absurd (List.mem_singleton.mp hc) (by decide)

/-- Reading a file whose last line is closed or lacks its newline is reading its
pieces. -/
theorem all_eq {b : Bytes} (hlines : b ++ separator b = utf8 (closedLines ps))
    (hp : ∀ p ∈ ps, IsPiece p) : all (some b) = .ok (ps.foldl readLine ([], 0)) := by
  have hnl : ∀ p ∈ ps, '\n' ∉ p := fun p hm => (hp p hm).notMem (by decide)
  have hcr := closedLines_noReturn hp
  rcases separator_cases b with hs | hs
  · rw [hs, List.append_nil] at hlines
    have htext := textLines_closedLines hnl []
    rw [List.append_nil, textLines, List.append_nil] at htext
    rw [all, hlines, readText_utf8 hcr]
    dsimp only
    rw [htext, foldl_readLine_newline hp]
  · rcases List.eq_nil_or_concat ps with rfl | ⟨qs, p, rfl⟩
    · rw [hs] at hlines
      exact absurd (List.append_eq_nil_iff.mp hlines).2 (List.cons_ne_nil _ _)
    · rw [List.concat_eq_append] at hp hnl hcr hlines ⊢
      have hpiece := hp p (List.mem_append_right _ List.mem_cons_self)
      have hlast : closedLines (qs ++ [p]) = (closedLines qs ++ p) ++ ['\n'] := by
        simp [closedLines]
      rw [hs, hlast, utf8_append, utf8_newline] at hlines
      have hb := List.append_cancel_right hlines
      rw [hlast, List.mem_append, not_or] at hcr
      obtain ⟨s, rfl⟩ := hpiece.2
      rw [all, hb, readText_utf8 hcr.1]
      dsimp only
      rw [textLines_closedLines fun q hq => hnl q (List.mem_append_left _ hq),
        textLines_tail (hpiece.notMem (by decide)) (List.cons_ne_nil _ _), List.foldl_append,
        List.foldl_append, foldl_readLine_newline fun q hq => hp q (List.mem_append_left _ hq)]

end

/-! ## What the pieces are read as -/

theorem Attempt.isPiece (a : Attempt) (h : a.piece ≠ []) : IsPiece a.piece := by
  obtain ⟨s, hs⟩ := a.record.text_braces
  rw [piece] at h ⊢
  split at h
  next => exact ⟨a.record.text_ascii, _, hs⟩
  next j _ =>
    obtain ⟨i, rfl⟩ : ∃ i, j = i + 1 := by
      cases j with
      | zero => exact absurd (List.take_zero) h
      | succ i => exact ⟨i, rfl⟩
    refine ⟨fun c hc => a.record.text_ascii c (List.mem_of_mem_take hc), ?_⟩
    rw [hs]
    exact ⟨_, List.take_succ_cons⟩

/-- The text of an object is read as the object. -/
theorem readLine_object {s : List Char} {v : PyValue} (h : Reads .default ('{' :: (s ++ ['}'])) v)
    (acc : List PyValue × ℕ) : readLine acc ('{' :: (s ++ ['}'])) = (acc.1 ++ [v], acc.2) := by
  have hstrip : strip ('{' :: (s ++ ['}'])) = '{' :: (s ++ ['}']) := by
    rw [strip, List.dropWhile_cons_of_neg (by decide), ← List.cons_append,
      List.rdropWhile_concat_neg _ _ _ (by decide)]
  rw [readLine, hstrip, if_neg (List.cons_ne_nil _ _), h.loads]

/-- Stripping a text that starts with a brace leaves a prefix of it, with the brace. -/
theorem strip_brace (s : List Char) : ∃ p, strip ('{' :: s) = '{' :: p ∧ p <+: s := by
  have hdrop : strip ('{' :: s) = ('{' :: s).rdropWhile isSpace := by
    rw [strip, List.dropWhile_cons_of_neg (by decide)]
  have hprefix := List.rdropWhile_prefix isSpace ('{' :: s)
  have hne : ('{' :: s).rdropWhile isSpace ≠ [] := by
    rw [ne_eq, List.rdropWhile_eq_nil_iff]
    intro h
    exact absurd (h '{' List.mem_cons_self) (by decide)
  obtain ⟨c, p, hp⟩ := List.exists_cons_of_ne_nil hne
  rw [hp, List.cons_prefix_cons] at hprefix
  exact ⟨p, by rw [hdrop, hp, hprefix.1], hprefix.2⟩

/-- A proper prefix of it is a damaged line. -/
theorem readLine_object_take {s : List Char} {v : PyValue}
    (h : Reads .default ('{' :: (s ++ ['}'])) v) {j : ℕ} (h0 : 0 < j)
    (hj : j < ('{' :: (s ++ ['}'])).length) (acc : List PyValue × ℕ) :
    readLine acc (('{' :: (s ++ ['}'])).take j) = (acc.1, acc.2 + 1) := by
  obtain ⟨i, rfl⟩ : ∃ i, j = i + 1 := ⟨j - 1, by omega⟩
  obtain ⟨p, hp, hprefix⟩ := strip_brace ((s ++ ['}']).take i)
  obtain ⟨q, hq⟩ := hprefix.trans (List.take_prefix i _)
  have hlen : p.length ≤ i := by
    have := hprefix.length_le
    rw [List.length_take] at this
    omega
  have hqne : q ≠ [] := by
    rintro rfl
    rw [← hq, List.append_nil, List.length_cons] at hj
    omega
  rw [← hq] at h
  rw [readLine, List.take_succ_cons, hp, if_neg (List.cons_ne_nil _ _), loads_prefix h hqne]

/-- A whole text is read as the record. -/
theorem readLine_text (r : DictRecord) (acc : List PyValue × ℕ) :
    readLine acc r.text = (acc.1 ++ [listed r.val], acc.2) := by
  obtain ⟨s, hs⟩ := r.text_braces
  rw [hs]
  exact readLine_object (hs ▸ r.reads) acc

/-- A proper prefix is a damaged line. -/
theorem readLine_prefix (r : DictRecord) {j : ℕ} (h0 : 0 < j) (hj : j < r.text.length)
    (acc : List PyValue × ℕ) : readLine acc (r.text.take j) = (acc.1, acc.2 + 1) := by
  obtain ⟨s, hs⟩ := r.text_braces
  rw [hs] at hj ⊢
  exact readLine_object_take (hs ▸ r.reads) h0 hj acc

/-- What one append left is read as its record, counted as damaged, or not there. -/
theorem readLine_attempt (a : Attempt) (acc : List PyValue × ℕ) :
    (if a.piece = [] then [] else [a.piece]).foldl readLine acc =
      (acc.1 ++ (if a.whole then [listed a.record.val] else []),
        acc.2 + if a.damaged then 1 else 0) := by
  obtain ⟨r, left⟩ := a
  have hpos : 0 < r.text.length := List.length_pos_iff.mpr r.text_ne_nil
  cases left with
  | none =>
      simp only [Attempt.piece, Attempt.whole, Attempt.damaged, r.text_ne_nil, if_false]
      exact readLine_text r acc
  | some j =>
      simp only [Attempt.piece, Attempt.whole, Attempt.damaged, List.take_eq_nil_iff,
        r.text_ne_nil, or_false, decide_eq_true_eq]
      rcases Nat.eq_zero_or_pos j with h0 | h0
      · rw [if_pos h0, if_neg (by omega), if_neg (by omega), List.append_nil]
        rfl
      · rcases Nat.lt_or_ge j r.text.length with hj | hj
        · rw [if_neg (by omega), if_neg (by omega), if_pos ⟨h0, hj⟩, List.append_nil]
          exact readLine_prefix r h0 hj acc
        · rw [if_neg (by omega), if_pos hj, if_neg (by omega), List.take_of_length_le hj]
          exact readLine_text r acc

/-- Reading the pieces of a run gives the whole records and counts the damaged ones. -/
theorem foldl_readLine_pieces (log : List Attempt) (acc : List PyValue × ℕ) :
    (pieces log).foldl readLine acc =
      (acc.1 ++ (log.filter Attempt.whole).map fun a => listed a.record.val,
        acc.2 + (log.filter Attempt.damaged).length) := by
  induction log generalizing acc with
  | nil => simp [pieces]
  | cons a log ih =>
      have hcons : pieces (a :: log) = (if a.piece = [] then [] else [a.piece]) ++ pieces log := by
        by_cases h : a.piece = []
        · simp [pieces, h]
        · simp [pieces, h]
      rw [hcons, List.foldl_append, ih, readLine_attempt]
      refine Prod.ext ?_ ?_
      · by_cases h : a.whole = true
        · simp [h]
        · simp [h]
      · by_cases h : a.damaged = true
        · simp [h]
          omega
        · simp [h]

theorem all_pieces {log : List Attempt} {file : Option Bytes} (h : CrashRun log file) :
    all file = .ok ((pieces log).foldl readLine ([], 0)) := by
  have hp : ∀ p ∈ pieces log, IsPiece p := by
    intro p hp
    rw [pieces, List.mem_filter, decide_eq_true_eq] at hp
    obtain ⟨a, _, rfl⟩ := List.mem_map.mp hp.1
    exact a.isPiece hp.2
  cases file with
  | some b => exact all_eq h.lines hp
  | none =>
      have hnil : pieces log = [] := by
        have hl := h.lines
        cases hps : pieces log with
        | nil => rfl
        | cons p ps =>
            rw [hps] at hl
            have hempty := utf8_injective (show utf8 [] = _ from hl)
            simp [closedLines] at hempty
      rw [hnil]
      rfl

/-- After any run of appends that complete or are killed, `all` returns the
records whose whole text reached the file, in order, and counts the appends that
left a proper part of their text. -/
theorem crash_recovery {log : List Attempt} {file : Option Bytes} (h : CrashRun log file) :
    ∃ out, all file = .ok (out, (log.filter Attempt.damaged).length) ∧
      List.Forall₂ (fun a v => a.record.reload = some v) (log.filter Attempt.whole) out ∧
      ∀ a ∈ log, a.left = none → ∃ v ∈ out, a.record.reload = some v := by
  have hout : List.Forall₂ (fun (a : Attempt) v => a.record.reload = some v)
      (log.filter Attempt.whole) ((log.filter Attempt.whole).map fun a => listed a.record.val) := by
    rw [List.forall₂_map_right_iff, List.forall₂_same]
    exact fun a _ => a.record.reload_eq
  refine ⟨_, ?_, hout, fun a ha hnone => ?_⟩
  · rw [all_pieces h, foldl_readLine_pieces, List.nil_append, Nat.zero_add]
  · refine PyValue.exists_right_of_forall₂ hout (List.mem_filter.mpr ⟨ha, ?_⟩)
    rw [Attempt.whole, hnone]

/-- A record of one member. -/
def noteRecord : DictRecord where
  val := dictOf [("note", .str (lit "x"))]
  wf := by decide +kernel
  isDict := ⟨_, rfl⟩
  accepted := ⟨utf8 "\x7b\"note\":\"x\"\x7d".toList, by decide +kernel⟩

theorem crash_recovery_note :
    ∃ file v, CrashRun [⟨noteRecord, some 3⟩, ⟨noteRecord, none⟩] file ∧
      all file = .ok ([v], 1) ∧ noteRecord.reload = some v := by
  have hadded : addedBytes (content none) noteRecord.val =
      .ok (utf8 (noteRecord.text ++ ['\n'])) := by decide +kernel
  have hkilled := CrashRun.killed noteRecord 3 .missing hadded (by decide +kernel)
  obtain ⟨file, hfile⟩ : ∃ file, append (some (content none ++
      (utf8 (noteRecord.text ++ ['\n'])).take 3)) noteRecord.val = .ok file := by
    rw [append, addedBytes, noteRecord.recordLine_eq]
    exact ⟨_, rfl⟩
  have hrun : CrashRun [⟨noteRecord, some 3⟩, ⟨noteRecord, none⟩] file :=
    CrashRun.completed noteRecord hkilled hfile
  have h3 : 3 < noteRecord.text.length := by decide +kernel
  have hwhole : ([⟨noteRecord, some 3⟩, ⟨noteRecord, none⟩] : List Attempt).filter Attempt.whole =
      [⟨noteRecord, none⟩] := by simp [Attempt.whole, h3]
  have hdamaged : ([⟨noteRecord, some 3⟩, ⟨noteRecord, none⟩] : List Attempt).filter
      Attempt.damaged = [⟨noteRecord, some 3⟩] := by simp [Attempt.damaged, h3]
  obtain ⟨out, hall, hout, _⟩ := crash_recovery hrun
  rw [hdamaged] at hall
  rw [hwhole] at hout
  obtain ⟨v, vs, hv, hnil, rfl⟩ := List.forall₂_cons_left_iff.mp hout
  cases hnil
  exact ⟨file, v, hrun, hall, hv⟩

end Corrlog
