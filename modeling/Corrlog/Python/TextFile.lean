import Corrlog.Python.Str
import Mathlib.Data.List.DropRight

/-!
# Text files

Reading a file in text mode decodes UTF-8 and turns every line ending into a
newline.  Iterating over the file gives its lines, each with its newline.
-/

namespace Python

/-- Every line ending, `\r\n`, `\r` or `\n`, as `\n`. -/
def universalNewlines : List Char → List Char
  | [] => []
  | c :: s =>
      if c = '\r' then
        match s with
        | [] => ['\n']
        | d :: s' =>
            if d = '\n' then '\n' :: universalNewlines s'
            else '\n' :: universalNewlines (d :: s')
      else c :: universalNewlines s

/-- `Path.read_text(encoding="utf-8")`, or `open(path, encoding="utf-8")` read to the end. -/
def readText (b : Bytes) : Option (List Char) := (decodeUtf8 b).map universalNewlines

/-- The lines of a text, each with its newline.  The last one may lack it. -/
def textLines : List Char → List (List Char)
  | [] => []
  | c :: s =>
      if c = '\n' then ['\n'] :: textLines s
      else
        match textLines s with
        | [] => [[c]]
        | l :: ls => (c :: l) :: ls

/-- The characters `str.strip` removes. -/
def isSpace (c : Char) : Bool :=
  let o := c.toNat
  (9 ≤ o && o ≤ 13) || (28 ≤ o && o ≤ 32) || o = 0x85 || o = 0xA0 || o = 0x1680 ||
    (0x2000 ≤ o && o ≤ 0x200A) || o = 0x2028 || o = 0x2029 || o = 0x202F || o = 0x205F || o = 0x3000

/-- `s.strip()`. -/
def strip (s : List Char) : List Char := (s.dropWhile isSpace).rdropWhile isSpace

/-- A text without line endings is kept. -/
theorem universalNewlines_eq {s : List Char} (h : '\r' ∉ s) : universalNewlines s = s := by
  induction s with
  | nil => rfl
  | cons c s ih =>
      rw [List.mem_cons, not_or] at h
      rw [universalNewlines.eq_def]
      simp only [if_neg (Ne.symm h.1), ih h.2]

theorem readText_utf8 {s : List Char} (h : '\r' ∉ s) : readText (utf8 s) = some s := by
  rw [readText, decodeUtf8_utf8, Option.map_some, universalNewlines_eq h]

/-- Lines put together are found again. -/
theorem textLines_line {l : List Char} (hl : '\n' ∉ l) (s : List Char) :
    textLines (l ++ '\n' :: s) = (l ++ ['\n']) :: textLines s := by
  induction l with
  | nil => rw [List.nil_append, textLines, if_pos rfl]; rfl
  | cons c l ih =>
      rw [List.mem_cons, not_or] at hl
      rw [List.cons_append, textLines, if_neg (Ne.symm hl.1), ih hl.2]
      rfl

/-- The last line, without a newline. -/
theorem textLines_tail {l : List Char} (hl : '\n' ∉ l) (hne : l ≠ []) : textLines l = [l] := by
  induction l with
  | nil => exact absurd rfl hne
  | cons c l ih =>
      rw [List.mem_cons, not_or] at hl
      rw [textLines, if_neg (Ne.symm hl.1)]
      cases l with
      | nil => rfl
      | cons d l => rw [ih hl.2 (List.cons_ne_nil _ _)]

/-! ## ASCII -/

/-- The bytes of an ASCII text are its characters. -/
theorem utf8_ascii {s : List Char} (h : ∀ c ∈ s, c.toNat < 128) :
    utf8 s = s.map fun c => c.val.toUInt8 := by
  induction s with
  | nil => rfl
  | cons c s ih =>
      have hc : c.utf8Size = 1 := by
        rw [Char.utf8Size_eq_one_iff, UInt32.le_iff_toNat_le]
        exact Nat.le_of_lt_succ (h c List.mem_cons_self)
      rw [utf8, List.flatMap_cons, String.utf8EncodeChar_eq_singleton hc, List.map_cons,
        ← ih fun d hd => h d (List.mem_cons_of_mem _ hd)]
      rfl

/-- A prefix of the bytes of an ASCII text is the bytes of a prefix. -/
theorem take_utf8_ascii {s : List Char} (h : ∀ c ∈ s, c.toNat < 128) (k : ℕ) :
    (utf8 s).take k = utf8 (s.take k) := by
  rw [utf8_ascii h, utf8_ascii fun c hc => h c (List.mem_of_mem_take hc), List.map_take]

theorem length_utf8_ascii {s : List Char} (h : ∀ c ∈ s, c.toNat < 128) :
    (utf8 s).length = s.length := by
  rw [utf8_ascii h, List.length_map]

end Python
