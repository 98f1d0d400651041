import Corrlog.Core.Storage
import Corrlog.Machine.Run
import Mathlib.Logic.Function.Basic

/-!
# Several writers

`append` looks at the last byte of the file and then writes, and `O_APPEND` makes
only the write atomic.  Any number of processes append to one file, each of them may
be killed within its write, and the runs of the machine `writers` are the
interleavings of these steps.

What a writer has seen of the tail may be out of date when it writes: if another
writer was killed in between, the record is glued onto what that one left.  In the
runs where this never happens, every record whose append returned is read back
(`concurrent_appends`).
-/

namespace Corrlog

open Python
open Machine (System Run)

variable {ω : Type}

/-! ## The machine -/

/-- What a writer has in hand after it has looked at the tail. -/
structure Pending where
  record : PyValue
  sep : Bytes
  line : Bytes

/-- A writer between two appends, or within one. -/
inductive Writer where
  | idle
  | inspected (p : Pending)
  | killed

/-- The file, and how far each writer is. -/
structure WriterState (ω : Type) where
  file : Option Bytes
  writers : ω → Writer

/-- What a writer does. -/
inductive WriterEvent (ω : Type) where
  | inspected (w : ω) (r : PyValue)
  | returned (w : ω) (r : PyValue)
  | killed (w : ω) (r : PyValue) (k : ℕ)

/-- An append that returned. -/
def WriterEvent.returned? : WriterEvent ω → Option (ω × PyValue)
  | .returned w r => some (w, r)
  | _ => none

/-- An append that wrote. -/
def WriterEvent.attempted? : WriterEvent ω → Option (ω × PyValue)
  | .returned w r => some (w, r)
  | .killed w r _ => some (w, r)
  | .inspected _ _ => none

/-- The appends that returned, in order. -/
def returned (log : List (WriterEvent ω)) : List (ω × PyValue) :=
  log.filterMap WriterEvent.returned?

/-- The appends that wrote, in order. -/
def attempted (log : List (WriterEvent ω)) : List (ω × PyValue) :=
  log.filterMap WriterEvent.attempted?

theorem returned_concat (log : List (WriterEvent ω)) (e : WriterEvent ω) :
    returned (log ++ [e]) = returned log ++ e.returned?.toList := by
  rw [returned, List.filterMap_append, returned]
  cases h : e.returned? with
  | none => rw [List.filterMap_cons_none h]; rfl
  | some x => rw [List.filterMap_cons_some h]; rfl

theorem attempted_concat (log : List (WriterEvent ω)) (e : WriterEvent ω) :
    attempted (log ++ [e]) = attempted log ++ e.attempted?.toList := by
  rw [attempted, List.filterMap_append, attempted]
  cases h : e.attempted? with
  | none => rw [List.filterMap_cons_none h]; rfl
  | some x => rw [List.filterMap_cons_some h]; rfl

variable [DecidableEq ω]

/-- The steps of the writers. -/
inductive WriterStep : WriterState ω → WriterEvent ω → WriterState ω → Prop
  /-- `append` makes the line, opens the file and looks at its tail. -/
  | inspect {s : WriterState ω} {w : ω} {r : PyValue} {line : Bytes} :
      s.writers w = .idle → r.isDict = true → recordLine r = .ok line →
      WriterStep s (.inspected w r)
        { file := some (content s.file)
          writers := Function.update s.writers w
            (.inspected ⟨r, separator (content s.file), line⟩) }
  /-- It writes and returns. -/
  | write {s : WriterState ω} {w : ω} {p : Pending} :
      s.writers w = .inspected p →
      WriterStep s (.returned w p.record)
        { file := some (content s.file ++ (p.sep ++ p.line))
          writers := Function.update s.writers w .idle }
  /-- The process is killed when `k` bytes have reached the file. -/
  | kill {s : WriterState ω} {w : ω} {p : Pending} (k : ℕ) :
      s.writers w = .inspected p →
      WriterStep s (.killed w p.record k)
        { file := some (content s.file ++ (p.sep ++ p.line).take k)
          writers := Function.update s.writers w .killed }

/-- Writers of a file that holds `before`. -/
def writers (ω : Type) [DecidableEq ω] (before : List PyValue) :
    System (WriterState ω) (WriterEvent ω) where
  init s := (∃ n, all s.file = .ok (before, n)) ∧ ∀ w, s.writers w = .idle
  step := WriterStep

/-- What the writer has seen of the tail still holds: it writes a newline first, or
the file is empty or ends with one. -/
def Fits (s : WriterState ω) (w : ω) : Prop :=
  ∀ p, s.writers w = .inspected p → Starts (content s.file) p.sep

/-- It holds at least if the step writes something. -/
def Fresh (s : WriterState ω) : WriterEvent ω → Prop
  | .inspected _ _ => True
  | .returned w _ => Fits s w
  | .killed w _ k => k = 0 ∨ Fits s w

/-- The same writers, where it always holds. -/
def freshWriters (ω : Type) [DecidableEq ω] (before : List PyValue) :
    System (WriterState ω) (WriterEvent ω) where
  init := (writers ω before).init
  step s e t := WriterStep s e t ∧ Fresh s e

/-! ## What is read back -/

/-- `v = json.loads(json.dumps(r))`. -/
def Reload (r v : PyValue) : Prop := ∃ t, dumps [' '] r = .ok t ∧ loads .default t = some v

/-- `all` returns what was there and then one value for each of some of the appends
that wrote, among them all that returned, in their order. -/
def Recovered (before : List PyValue) (log : List (WriterEvent ω)) (s : WriterState ω) : Prop :=
  ∃ entries out n, all s.file = .ok (before ++ out, n) ∧
    List.Forall₂ (fun e v => Reload e.2 v) entries out ∧
    (returned log).Sublist entries ∧ entries.Sublist (attempted log)

/-- A record that could be written is read back as what it is reloaded to. -/
theorem reload_reloaded {r : PyValue} {line : Bytes} (h : recordLine r = .ok line) :
    Reload r (reloaded r) := by
  have hs := recordLine_serializable.mp ⟨line, h⟩
  obtain ⟨t, ht⟩ : ∃ t, dumps [' '] r = .ok t := (dumps_eq_ok r).mpr hs
  exact ⟨t, ht, (reads_dumps_reloaded isWs_space ht).loads⟩

/-- A part of a line is read as the record or as no value. -/
theorem readLine_take {r : PyValue} (hd : r.isDict = true) {t : List Char} (h : dumps [] r = .ok t)
    (j : ℕ) (acc : List PyValue × ℕ) :
    ∃ n, readLine acc (t.take j) = (acc.1, n) ∨
      readLine acc (t.take j) = (acc.1 ++ [reloaded r], n) := by
  rcases Nat.lt_or_ge j t.length with hj | hj
  · rcases Nat.eq_zero_or_pos j with rfl | h0
    · exact ⟨acc.2, Or.inl rfl⟩
    · obtain ⟨s, hs⟩ := dumps_braces hd h
      have hreads := reads_dumps_reloaded isWs_nil h
      rw [hs] at hreads hj ⊢
      exact ⟨_, Or.inl (readLine_object_take hreads h0 hj acc)⟩
  · rw [List.take_of_length_le hj]
    exact ⟨_, Or.inr (readLine_dumps hd h acc)⟩

/-- So is a part of what an append adds. -/
theorem all_added_take {b sep : Bytes} {acc : List PyValue × ℕ} (h : all (some b) = .ok acc)
    {r : PyValue} (hd : r.isDict = true) {line : Bytes} (hline : recordLine r = .ok line) {k : ℕ}
    (hsep : k = 0 ∨ Starts b sep) :
    ∃ n, all (some (b ++ (sep ++ line).take k)) = .ok (acc.1, n) ∨
      all (some (b ++ (sep ++ line).take k)) = .ok (acc.1 ++ [reloaded r], n) := by
  rcases hsep with rfl | hsep
  · rw [List.take_zero, List.append_nil]
    exact ⟨acc.2, Or.inl h⟩
  · obtain ⟨t, ht, rfl⟩ := recordLine_eq_ok hline
    rw [all_cut h hsep (dumps_ascii (forall_ascii rfl) ht) k]
    obtain ⟨n, hread | hread⟩ := readLine_take hd ht (k - sep.length) acc
    · exact ⟨n, Or.inl (by rw [hread])⟩
    · exact ⟨n, Or.inr (by rw [hread])⟩

/-! ## Runs -/

/-- What a writer has in hand is a dict and its line. -/
def Prepared (s : WriterState ω) : Prop :=
  ∀ w p, s.writers w = .inspected p → p.record.isDict = true ∧ recordLine p.record = .ok p.line

theorem Prepared.update {s : WriterState ω} (h : Prepared s) {w : ω} {x : Writer}
    {file : Option Bytes}
    (hx : ∀ p, x = .inspected p → p.record.isDict = true ∧ recordLine p.record = .ok p.line) :
    Prepared { file := file, writers := Function.update s.writers w x } := by
  intro w' p hp
  by_cases hw : w' = w
  · rw [hw] at hp
    exact hx p ((Function.update_self w x s.writers).symm.trans hp)
  · exact h w' p ((Function.update_of_ne hw x s.writers).symm.trans hp)

/-- A writer that has looked at the tail has a dict and its line. -/
theorem prepared_step {s t : WriterState ω} {e : WriterEvent ω} (h : Prepared s)
    (hs : WriterStep s e t) : Prepared t := by
  cases hs with
  | inspect _ hd hline =>
      refine h.update fun p hp => ?_
      cases hp
      exact ⟨hd, hline⟩
  | write _ => exact h.update fun p hp => by cases hp
  | kill k _ => exact h.update fun p hp => by cases hp

variable {before : List PyValue}

/-- One step, by cases on what the writer does. -/
theorem recovered_step {log : List (WriterEvent ω)} {s t : WriterState ω} {e : WriterEvent ω}
    (hp : Prepared s) (h : Recovered before log s) (hs : WriterStep s e t) (hf : Fresh s e) :
    Recovered before (log ++ [e]) t := by
  obtain ⟨entries, out, n, hall, hout, hret, hatt⟩ := h
  rw [Recovered, returned_concat, attempted_concat]
  cases hs with
  | inspect _ _ _ =>
      refine ⟨entries, out, n, all_content hall, hout, ?_, ?_⟩
      · show (returned log ++ []).Sublist entries
        rw [List.append_nil]
        exact hret
      · show entries.Sublist (attempted log ++ [])
        rw [List.append_nil]
        exact hatt
  | @write w p hw =>
      obtain ⟨hd, hline⟩ := hp w p hw
      have hnew := all_added (all_content hall) (hf p hw) hd hline
      rw [List.append_assoc] at hnew
      refine ⟨entries ++ [(w, p.record)], _, n, hnew, ?_, hret.append (.refl _),
        hatt.append (.refl _)⟩
      exact List.rel_append hout (.cons (reload_reloaded hline) .nil)
  | @kill w p k hw =>
      obtain ⟨hd, hline⟩ := hp w p hw
      have hret' : (returned log ++ []).Sublist entries := by
        rw [List.append_nil]
        exact hret
      obtain ⟨n', hnew | hnew⟩ := all_added_take (all_content hall) hd hline
        (hf.imp_right fun hfits => hfits p hw)
      · exact ⟨entries, out, n', hnew, hout, hret',
          hatt.trans (List.sublist_append_left _ _)⟩
      · rw [List.append_assoc] at hnew
        refine ⟨entries ++ [(w, p.record)], _, n', hnew, ?_,
          hret'.trans (List.sublist_append_left _ _), hatt.append (.refl _)⟩
        exact List.rel_append hout (.cons (reload_reloaded hline) .nil)

/-- In a run whose writers never write after a tail that they have not seen, every
record whose append returned is read back once, in the order of the writes, and
nothing else but records of killed appends. -/
theorem concurrent_appends {log : List (WriterEvent ω)} {s : WriterState ω}
    (h : Run (freshWriters ω before) log s) :
    Recovered before log s := by
  refine (h.invariant (I := fun log s => Prepared s ∧ Recovered before log s) ?_ ?_).2
  · intro s ⟨⟨n, hall⟩, hidle⟩
    refine ⟨fun w p hp => ?_, [], [], n, ?_, .nil, .slnil, .slnil⟩
    · rw [hidle w] at hp
      cases hp
    · rw [List.append_nil]
      exact hall
  · intro log s e t ⟨hp, hr⟩ ⟨hs, hf⟩
    exact ⟨prepared_step hp hs, recovered_step hp hr hs hf⟩

/-! ## Two writers -/

/-- Nobody has a file yet. -/
def noFile : WriterState Bool := ⟨none, fun _ => .idle⟩

/-- From no file, with all writers idle. -/
theorem start_noFile : Run (writers Bool []) [] noFile := .start ⟨⟨0, rfl⟩, fun _ => rfl⟩

theorem noteLine : recordLine noteRecord.val = .ok (utf8 (noteRecord.text ++ ['\n'])) :=
  noteRecord.recordLine_eq

/-- A part of a line is damaged. -/
theorem readLine_damaged {line : List Char} (hstrip : strip line ≠ [])
    (hloads : (loads .default (strip line)).isNone = true) (acc : List PyValue × ℕ) :
    readLine acc line = (acc.1, acc.2 + 1) := by
  rw [readLine, if_neg hstrip, Option.isNone_iff_eq_none.mp hloads]

/-- One of them is killed within its line.  The other one then looks at the tail, and
appends twice. -/
def sealedLog : List (WriterEvent Bool) :=
  [.inspected false noteRecord.val, .killed false noteRecord.val 3,
    .inspected true noteRecord.val, .returned true noteRecord.val,
    .inspected true noteRecord.val, .returned true noteRecord.val]

/-- What the killed writer left is one damaged line. -/
theorem concurrent_appends_note : ∃ (s : WriterState Bool) (v : PyValue),
    Run (freshWriters Bool []) sealedLog s ∧ Recovered [] sealedLog s ∧
      all s.file = .ok ([v, v], 1) ∧ Reload noteRecord.val v := by
  have h₀ : Run (freshWriters Bool []) [] noFile := .start ⟨⟨0, rfl⟩, fun _ => rfl⟩
  have h₁ := h₀.tail ⟨.inspect (w := false) rfl rfl noteLine, trivial⟩
  have h₂ := h₁.tail ⟨.kill (w := false) 3 rfl, .inr fun p hp => by
    cases hp
    exact starts_separator _⟩
  have h₃ := h₂.tail ⟨.inspect (w := true) rfl rfl noteLine, trivial⟩
  have h₄ := h₃.tail ⟨.write (w := true) rfl, fun p hp => by
    cases hp
    exact starts_separator _⟩
  have h₅ := h₄.tail ⟨.inspect (w := true) rfl rfl noteLine, trivial⟩
  have h₆ := h₅.tail ⟨.write (w := true) rfl, fun p hp => by
    cases hp
    exact starts_separator _⟩
  have hnone : all (some []) = .ok ([], 0) := rfl
  have htorn := all_cut hnone (starts_separator []) noteRecord.text_ascii 3
  rw [readLine_damaged (by decide +kernel) (by decide +kernel)] at htorn
  have htwo := all_append (all_content (all_append htorn rfl noteLine)) rfl noteLine
  exact ⟨_, _, h₆, concurrent_appends h₆, htwo, reload_reloaded noteLine⟩

/-- A part of a line with a whole line glued onto it. -/
def gluedText : List Char := noteRecord.text.take 3 ++ noteRecord.text

/-- No record is read of the glued line. -/
theorem all_gluedText : all (some (utf8 (gluedText ++ ['\n']))) = .ok ([], 1) := by
  have hascii : ∀ c ∈ gluedText, asciiChar c := by
    intro c hc
    rcases List.mem_append.mp hc with hc | hc
    · exact noteRecord.text_ascii c (List.mem_of_mem_take hc)
    · exact noteRecord.text_ascii c hc
  have hread : readLine ([], 0) gluedText = ([], 1) :=
    readLine_damaged (by decide +kernel) (by decide +kernel) _
  rw [all_utf8, readLines_concat, readLines_single fun c hc => isNewline_ascii (hascii c hc), hread]

/-- Both have looked at the empty file when one is killed within its line.  The
other writes on, returns, and its record is lost. -/
theorem concurrent_appends_glued : ∃ (log : List (WriterEvent Bool)) (s : WriterState Bool),
    Run (writers Bool []) log s ∧ returned log = [(true, noteRecord.val)] ∧
      all s.file = .ok ([], 1) ∧ ¬ Recovered [] log s := by
  have h₁ := start_noFile.tail (.inspect (w := true) rfl rfl noteLine)
  have h₂ := h₁.tail (.inspect (w := false) rfl rfl noteLine)
  have h₃ := h₂.tail (.kill (w := false) 3 rfl)
  have h₄ := h₃.tail (.write (w := true)
    (p := ⟨noteRecord.val, separator [], utf8 (noteRecord.text ++ ['\n'])⟩) rfl)
  obtain ⟨s, h₄, hfile⟩ : ∃ s : WriterState Bool,
      Run (writers Bool []) [.inspected true noteRecord.val, .inspected false noteRecord.val,
        .killed false noteRecord.val 3, .returned true noteRecord.val] s ∧
      s.file = some (utf8 (gluedText ++ ['\n'])) :=
    ⟨_, h₄, by decide +kernel⟩
  have hall : all s.file = .ok ([], 1) := by rw [hfile, all_gluedText]
  refine ⟨_, s, h₄, rfl, hall, ?_⟩
  intro ⟨entries, out, n, hall', hout, hret, _⟩
  rw [hall, Except.ok.injEq, Prod.mk.injEq] at hall'
  have hnil : out = [] := hall'.1.symm
  rw [hnil, List.forall₂_nil_right_iff] at hout
  rw [hout] at hret
  exact absurd (List.sublist_nil.mp hret) (List.cons_ne_nil _ _)

end Corrlog
