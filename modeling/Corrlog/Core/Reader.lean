import Corrlog.Core.Sink
import Corrlog.Python.Lines

/-!
# What `all` reads

`all` decodes the whole file and then takes it line by line.  Lines may be cut
at every line ending (`all_utf8`), and what is written where a line starts is read
after what was there (`all_cut`).

A line that does not parse is skipped.  A line that is not valid UTF-8 is not: the
file is decoded outside the `try` block, so `all` returns what the lines hold only
if they are all valid UTF-8 (`tolerance`).
-/

namespace Corrlog

open Python

/-! ## Lines -/

/-- The newline at the end of a line is stripped. -/
theorem strip_concat (s : List Char) : strip (s ++ ['\n']) = strip s := by
  rw [strip, strip, List.dropWhile_append]
  split
  next h =>
    rw [List.isEmpty_iff.mp h]
    rfl
  next => rw [List.rdropWhile_concat_pos _ _ _ rfl]

/-- An empty line is neither a value nor damaged. -/
theorem readLine_nil (acc : List PyValue × ℕ) : readLine acc [] = acc := rfl

theorem readLine_concat (acc : List PyValue × ℕ) (l : List Char) :
    readLine acc (l ++ ['\n']) = readLine acc l := readLine_congr (strip_concat l)

/-- What the lines of a text are read as. -/
def readLines (s : List Char) : List PyValue × ℕ := (s.splitOnP isNewline).foldl readLine ([], 0)

/-- A text that was written as UTF-8 can be read. -/
theorem all_utf8 (s : List Char) : all (some (utf8 s)) = .ok (readLines s) := by
  rw [all, readText, decodeUtf8_utf8, Option.map_some]
  dsimp only
  rw [foldl_textLines readLine_nil readLine_concat, readLines]

/-- `all` raises if the file is not valid UTF-8, and only then. -/
theorem all_eq_ok {b : Bytes} {acc : List PyValue × ℕ} :
    all (some b) = .ok acc ↔ ∃ s, b = utf8 s ∧ readLines s = acc := by
  constructor
  · intro h
    cases hd : decodeUtf8 b with
    | none =>
        rw [all, readText, hd] at h
        cases h
    | some s =>
        rw [decodeUtf8_eq_some_iff] at hd
        rw [hd, all_utf8, Except.ok.injEq] at h
        exact ⟨s, hd, h⟩
  · intro hs
    obtain ⟨s, hs, hacc⟩ := hs
    rw [hs, all_utf8, hacc]

/-- After a newline the reader goes on with the lines that follow. -/
theorem readLines_newline (s t : List Char) :
    readLines (s ++ '\n' :: t) = (t.splitOnP isNewline).foldl readLine (readLines s) := by
  rw [readLines, List.splitOnP_append_cons s t rfl, List.foldl_append, readLines]

/-- The reader adds what one more line gives. -/
theorem readLines_line (s : List Char) {t : List Char} (ht : ∀ c ∈ t, isNewline c = false) :
    readLines (s ++ '\n' :: t) = readLine (readLines s) t := by
  rw [readLines_newline, List.splitOnP_eq_singleton ht, List.foldl_cons, List.foldl_nil]

/-- A newline at the end changes nothing. -/
theorem readLines_concat (s : List Char) : readLines (s ++ ['\n']) = readLines s :=
  readLines_line s (List.forall_mem_nil _)

theorem readLines_single {t : List Char} (ht : ∀ c ∈ t, isNewline c = false) :
    readLines t = readLine ([], 0) t := by
  rw [readLines, List.splitOnP_eq_singleton ht]
  rfl

/-- The printable characters of ASCII end no line. -/
theorem isNewline_ascii {c : Char} (hc : asciiChar c) : isNewline c = false := by
  have h := hc.1
  refine isNewline_false.mpr ⟨?_, ?_⟩
  · rintro rfl
    exact absurd h (by decide)
  · rintro rfl
    exact absurd h (by decide)

/-! ## Writing where a line starts -/

/-- The file is empty or ends with a newline. -/
def Closed (b : Bytes) : Prop := b = [] ∨ b.getLast? = some 10

/-- A file that needs no separator. -/
theorem closed_iff {b : Bytes} : Closed b ↔ separator b = [] := by
  rw [separator, Closed]
  split
  next h => exact iff_of_true h rfl
  next h => exact iff_of_false h (List.cons_ne_nil _ _)

/-- The last byte of a newline is that of no other character. -/
theorem exists_concat_of_closed {s : List Char} (h : Closed (utf8 s)) :
    s = [] ∨ ∃ t, s = t ++ ['\n'] := by
  rcases List.eq_nil_or_concat s with rfl | ⟨t, c, rfl⟩
  · exact Or.inl rfl
  right
  rw [List.concat_eq_append] at h ⊢
  have hbytes : ∀ x ∈ utf8 [c], (utf8 [c]).getLast? = some x → x = 10 := by
    intro x _ hx
    rcases h with h | h
    · rw [utf8_append] at h
      rw [(List.append_eq_nil_iff.mp h).2] at hx
      cases hx
    · rw [utf8_append, List.getLast?_append, hx] at h
      exact Option.some.inj h
  have hne : utf8 [c] ≠ [] := fun he => List.cons_ne_nil c [] (utf8_injective he)
  have h10 := hbytes _ (List.getLast_mem hne) (List.getLast?_eq_some_getLast hne)
  cases hc : isNewline c with
  | false =>
      have := isNewlineByte_utf8 hc _ (List.getLast_mem hne)
      rw [h10] at this
      cases this
  | true =>
      rcases isNewline_iff.mp hc with rfl | rfl
      · exact ⟨t, rfl⟩
      · exact absurd h10 (show (13 : UInt8) ≠ 10 by decide)

/-- A line starts after these bytes: they are a newline, or nothing is needed. -/
def Starts (b sep : Bytes) : Prop := sep = [10] ∨ sep = [] ∧ Closed b

/-- With its separator a record starts a line of its own. -/
theorem starts_separator (b : Bytes) : Starts b (separator b) := by
  rcases separator_cases b with h | h
  · exact Or.inr ⟨h, closed_iff.mpr h⟩
  · exact Or.inl h

/-- What is written at the start of a line is read as a line. -/
theorem all_start {b sep : Bytes} {acc : List PyValue × ℕ} (hb : all (some b) = .ok acc)
    (hsep : Starts b sep) :
    ∃ s, b ++ sep = utf8 s ∧ readLines s = acc ∧
      ∀ t, (∀ c ∈ t, isNewline c = false) → readLines (s ++ t) = readLine acc t := by
  obtain ⟨s, rfl, rfl⟩ := all_eq_ok.mp hb
  rcases hsep with rfl | ⟨rfl, hclosed⟩
  · refine ⟨s ++ ['\n'], ?_, readLines_concat s, fun t ht => ?_⟩
    · rw [utf8_append, utf8_newline]
    · rw [List.append_assoc, List.singleton_append, readLines_line s ht]
  · refine ⟨s, List.append_nil _, rfl, fun t ht => ?_⟩
    rcases exists_concat_of_closed hclosed with rfl | ⟨s, rfl⟩
    · rw [List.nil_append, readLines_single ht]
      rfl
    · rw [List.append_assoc, List.singleton_append, readLines_line s ht, readLines_concat]

/-- The same of any part of the line and its newline. -/
theorem all_cut {b sep : Bytes} {acc : List PyValue × ℕ} (hb : all (some b) = .ok acc)
    (hsep : Starts b sep) {t : List Char} (ht : ∀ c ∈ t, asciiChar c) (k : ℕ) :
    all (some (b ++ (sep ++ utf8 (t ++ ['\n'])).take k)) =
      .ok (readLine acc (t.take (k - sep.length))) := by
  have hline := line_ascii ht
  have hplain : ∀ c ∈ t, isNewline c = false := fun c hc => isNewline_ascii (ht c hc)
  rcases Nat.lt_or_ge k sep.length with hk | hk
  · -- only the separator could be there, and it is one byte
    have hk0 : k = 0 := by
      rcases hsep with rfl | ⟨rfl, _⟩
      · exact Nat.lt_one_iff.mp hk
      · exact absurd hk (Nat.not_lt_zero k)
    rw [hk0, List.take_zero, List.append_nil, Nat.zero_sub, List.take_zero, readLine_nil, hb]
  · obtain ⟨j, rfl⟩ := Nat.exists_eq_add_of_le hk
    obtain ⟨s, hs, _, hread⟩ := all_start hb hsep
    rw [List.take_length_add_append, take_utf8_ascii hline, ← List.append_assoc, hs,
      ← utf8_append, all_utf8, Nat.add_sub_cancel_left]
    rcases Nat.lt_or_ge t.length j with hj | hj
    · rw [List.take_of_length_le (by rw [List.length_append, List.length_singleton]; omega),
        List.take_of_length_le hj.le, ← List.append_assoc, readLines_concat, hread t hplain]
    · rw [List.take_append_of_le_length hj,
        hread _ fun c hc => hplain c (List.mem_of_mem_take hc)]

/-! ## Damaged files -/

/-- The lines of a file. -/
def fileLines (b : Bytes) : List Bytes := b.splitOnP isNewlineByte

/-- The value of a line that is valid UTF-8 and JSON. -/
def lineValue (l : Bytes) : Option PyValue := (decodeUtf8 l).bind fun s => loads .default (strip s)

/-- The line is white space. -/
def isBlank (l : Bytes) : Bool := decide ((decodeUtf8 l).map strip = some [])

/-- The values of a file, in order. -/
def values (b : Bytes) : List PyValue := (fileLines b).filterMap lineValue

/-- The number of lines that are neither blank nor have a value. -/
def damagedLines (b : Bytes) : ℕ :=
  ((fileLines b).filter fun l => !isBlank l && (lineValue l).isNone).length

/-- What the loop adds for a line can be told from the bytes of the line. -/
theorem readLine_utf8 (acc : List PyValue × ℕ) (l : List Char) :
    readLine acc l = (acc.1 ++ (lineValue (utf8 l)).toList,
      acc.2 + if !isBlank (utf8 l) && (lineValue (utf8 l)).isNone then 1 else 0) := by
  rw [lineValue, isBlank, decodeUtf8_utf8, Option.map_some, Option.bind_some, readLine]
  by_cases hs : strip l = []
  · rw [if_pos hs, hs]
    exact Prod.ext (List.append_nil _).symm rfl
  · have hblank : decide (some (strip l) = some []) = false :=
      decide_eq_false fun h => hs (Option.some.inj h)
    rw [if_neg hs, hblank]
    cases loads .default (strip l) with
    | none => exact Prod.ext (List.append_nil _).symm rfl
    | some v => rfl

theorem foldl_readLine_utf8 (ls : List (List Char)) (acc : List PyValue × ℕ) :
    ls.foldl readLine acc = (acc.1 ++ (ls.map utf8).filterMap lineValue,
      acc.2 + ((ls.map utf8).filter fun l => !isBlank l && (lineValue l).isNone).length) := by
  induction ls generalizing acc with
  | nil => exact Prod.ext (List.append_nil _).symm rfl
  | cons l ls ih =>
      rw [List.foldl_cons, ih, readLine_utf8, List.map_cons, List.filterMap_cons, List.filter_cons]
      refine Prod.ext ?_ ?_
      · cases lineValue (utf8 l) with
        | none => rw [Option.toList_none, List.append_nil]
        | some v => rw [Option.toList_some, List.append_assoc, List.singleton_append]
      · cases hd : !isBlank (utf8 l) && (lineValue (utf8 l)).isNone with
        | false => rfl
        | true =>
            rw [if_pos rfl, if_pos rfl, List.length_cons, Nat.add_assoc, Nat.add_comm 1]

/-- The result of the reader can be told from the bytes. -/
theorem readLines_eq (s : List Char) : readLines s = (values (utf8 s), damagedLines (utf8 s)) := by
  rw [readLines, foldl_readLine_utf8, ← splitOnP_utf8, List.nil_append, Nat.zero_add]
  rfl

/-- A readable file gives the values of its lines, and the number of damaged ones. -/
theorem all_eq_values {b : Bytes} (h : (decodeUtf8 b).isSome = true) :
    all (some b) = .ok (values b, damagedLines b) := by
  obtain ⟨s, hs⟩ := Option.isSome_iff_exists.mp h
  rw [decodeUtf8_eq_some_iff.mp hs, all_utf8, readLines_eq]

/-- Only a file that is UTF-8 can be read. -/
theorem isSome_of_all {b : Bytes} {acc : List PyValue × ℕ} (h : all (some b) = .ok acc) :
    (decodeUtf8 b).isSome = true := by
  obtain ⟨s, rfl, _⟩ := all_eq_ok.mp h
  rw [decodeUtf8_utf8]
  rfl

/-- `all` returns what the lines of a file hold if and only if the file is valid
UTF-8.  So garbage after a whole line leaves the values before it readable if and
only if the garbage is. -/
theorem tolerance (b g : Bytes) :
    (all (some b) = .ok (values b, damagedLines b) ↔ (decodeUtf8 b).isSome = true) ∧
    ∀ out n, all (some (b ++ [10])) = .ok (out, n) →
      ((∃ out' n', all (some (b ++ 10 :: g)) = .ok (out ++ out', n')) ↔
        (decodeUtf8 g).isSome = true) := by
  refine ⟨⟨isSome_of_all, all_eq_values⟩, fun out n h => ?_⟩
  obtain ⟨s, hs, hread⟩ := all_eq_ok.mp h
  obtain ⟨s, rfl⟩ : ∃ t, s = t ++ ['\n'] := by
    refine (exists_concat_of_closed (hs ▸ Or.inr List.getLast?_concat)).resolve_left ?_
    rintro rfl
    exact List.append_ne_nil_of_right_ne_nil _ (List.cons_ne_nil _ _) hs
  have happ : b ++ 10 :: g = utf8 (s ++ ['\n']) ++ g := by
    rw [← hs, List.append_assoc, List.singleton_append]
  rw [happ]
  constructor
  · intro ⟨_, _, hg⟩
    have hdec := isSome_of_all hg
    rwa [decodeUtf8_append, Option.isSome_map] at hdec
  · intro hg
    obtain ⟨t, ht⟩ := Option.isSome_iff_exists.mp hg
    rw [readLines_concat] at hread
    have hall := all_utf8 ((s ++ ['\n']) ++ t)
    rw [List.append_assoc, List.singleton_append, readLines_newline, hread,
      foldl_readLine_utf8] at hall
    rw [decodeUtf8_eq_some_iff.mp ht, ← utf8_append, List.append_assoc, List.singleton_append]
    exact ⟨_, _, hall⟩

/-- Bytes after a newline do not change the values before it. -/
theorem values_newline (b g : Bytes) : values (b ++ 10 :: g) = values b ++ values g := by
  rw [values, fileLines, List.splitOnP_append_cons b g rfl, List.filterMap_append]
  rfl

theorem readLines_note : readLines noteRecord.text = ([listed noteRecord.val], 0) := by
  rw [readLines_single fun c hc => isNewline_ascii (noteRecord.text_ascii c hc), readLine_text]
  rfl

/-- A file with one record. -/
theorem all_note : all (some (utf8 noteRecord.text ++ [10])) =
    .ok ([listed noteRecord.val], 0) := by
  rw [← utf8_newline, ← utf8_append, all_utf8, readLines_concat, readLines_note]

/-- A record line, and after it a letter. -/
theorem tolerance_letter : ∃ out' n', all (some (utf8 noteRecord.text ++ 10 :: [0x78])) =
    .ok ([listed noteRecord.val] ++ out', n') :=
  ((tolerance _ _).2 _ _ all_note).mpr (by decide +kernel)

/-- A record line, and after it the first byte of a character of three. -/
theorem tolerance_torn :
    all (some (utf8 noteRecord.text ++ [10])) = .ok ([listed noteRecord.val], 0) ∧
    values (utf8 noteRecord.text ++ 10 :: [0xE2]) = [listed noteRecord.val] ∧
    all (some (utf8 noteRecord.text ++ 10 :: [0xE2])) = builtinError .UnicodeError := by
  have htorn : decodeUtf8 [0xE2] = none := by decide +kernel
  refine ⟨all_note, ?_, ?_⟩
  · have hread := readLines_note
    rw [readLines_eq] at hread
    have hvalue : values [0xE2] = [] := by
      show [[0xE2]].filterMap lineValue = []
      rw [List.filterMap_cons_none (by rw [lineValue, htorn]; rfl)]
      rfl
    rw [values_newline, (Prod.mk.inj hread).1, hvalue, List.append_nil]
  · have happ : utf8 noteRecord.text ++ 10 :: [0xE2] =
        utf8 (noteRecord.text ++ ['\n']) ++ [0xE2] := by
      rw [utf8_append, utf8_newline, List.append_assoc, List.singleton_append]
    rw [happ, all, readText, decodeUtf8_append, htorn]
    rfl

end Corrlog
