import Corrlog.Python.TextFile

/-!
# Reading a file line by line

Iterating over a text file decodes all of it, turns line endings into newlines and
cuts after each newline.  A reader to which a blank line means nothing, and which
does not care about the newline at the end of a line, may as well cut the text
before every `\n` and every `\r` (`foldl_textLines`): the empty line between `\r`
and `\n` is blank.

Cut like that, lines can be taken of the bytes as well as of the text, since no
other character has the byte of a line ending in its encoding (`splitOnP_utf8`).
-/

namespace Python

/-- `\n` or `\r`. -/
def isNewline (c : Char) : Bool := c = '\n' || c = '\r'

/-- The byte of `\n` or of `\r`. -/
def isNewlineByte (x : UInt8) : Bool := x = 10 || x = 13

theorem isNewline_iff {c : Char} : isNewline c = true ↔ c = '\n' ∨ c = '\r' := by
  rw [isNewline, Bool.or_eq_true, decide_eq_true_eq, decide_eq_true_eq]

theorem isNewline_false {c : Char} : isNewline c = false ↔ c ≠ '\n' ∧ c ≠ '\r' := by
  rw [← Bool.not_eq_true, isNewline_iff, not_or]

/-! ## Lines of a text -/

/-- A text is one line, or it goes on after the end of its first one. -/
theorem line_cases {α : Type} (p : α → Bool) (s : List α) :
    (∀ c ∈ s, p c = false) ∨
      ∃ l e t, s = l ++ e :: t ∧ (∀ c ∈ l, p c = false) ∧ p e = true := by
  induction s with
  | nil => exact Or.inl fun c h => absurd h List.not_mem_nil
  | cons c s ih =>
      cases hc : p c with
      | true => exact Or.inr ⟨[], c, s, rfl, fun c h => absurd h List.not_mem_nil, hc⟩
      | false =>
          rcases ih with h | ⟨l, e, t, rfl, hl, he⟩
          · exact Or.inl (List.forall_mem_cons.mpr ⟨hc, h⟩)
          · exact Or.inr ⟨c :: l, e, t, rfl, List.forall_mem_cons.mpr ⟨hc, hl⟩, he⟩

theorem universalNewlines_append {l : List Char} (hl : '\r' ∉ l) (s : List Char) :
    universalNewlines (l ++ s) = l ++ universalNewlines s := by
  induction l with
  | nil => rfl
  | cons c l ih =>
      rw [List.mem_cons, not_or] at hl
      rw [List.cons_append, universalNewlines.eq_def]
      simp only [if_neg (Ne.symm hl.1), ih hl.2, List.cons_append]

theorem universalNewlines_newline (s : List Char) :
    universalNewlines ('\n' :: s) = '\n' :: universalNewlines s := by
  rw [universalNewlines.eq_def]
  simp only [if_neg (show '\n' ≠ '\r' by decide)]

/-- `\r`, with or without `\n`. -/
theorem universalNewlines_return (s : List Char) :
    (∃ t, s = '\n' :: t ∧ universalNewlines ('\r' :: s) = '\n' :: universalNewlines t) ∨
      universalNewlines ('\r' :: s) = '\n' :: universalNewlines s := by
  rw [universalNewlines.eq_def]
  cases s with
  | nil => exact Or.inr rfl
  | cons d s =>
      simp only [if_true]
      by_cases hd : d = '\n'
      · rw [if_pos hd]
        exact Or.inl ⟨s, by rw [hd], rfl⟩
      · rw [if_neg hd]
        exact Or.inr rfl

section

variable {β : Type} {f : β → List Char → β}

/-- Lines with their newlines, read by a reader that skips blank lines. -/
theorem foldl_textLines_newline (hblank : ∀ acc, f acc [] = acc)
    (hline : ∀ acc l, f acc (l ++ ['\n']) = f acc l) (s : List Char) (acc : β) :
    (textLines s).foldl f acc = (s.splitOnP (· = '\n')).foldl f acc := by
  induction hn : s.length using Nat.strong_induction_on generalizing s acc with
  | _ n ih =>
    rcases line_cases (· = '\n') s with h | ⟨l, e, t, rfl, hl, he⟩
    · rw [List.splitOnP_eq_singleton h, List.foldl_cons, List.foldl_nil]
      cases s with
      | nil => exact (hblank acc).symm
      | cons c s =>
          have hs : '\n' ∉ c :: s := fun hm => of_decide_eq_false (h _ hm) rfl
          rw [textLines_tail hs (List.cons_ne_nil _ _)]
          rfl
    · have hnl : '\n' ∉ l := fun hm => of_decide_eq_false (hl _ hm) rfl
      have ht : t.length < n := by
        rw [← hn, List.length_append, List.length_cons]
        omega
      rw [List.splitOnP_append_cons_of_forall_mem hl e he, of_decide_eq_true he,
        textLines_line hnl, List.foldl_cons, List.foldl_cons, hline, ih _ ht t _ rfl]

/-- After newline translation it has the lines between all line endings. -/
theorem foldl_universalNewlines (hblank : ∀ acc, f acc [] = acc) (s : List Char) (acc : β) :
    ((universalNewlines s).splitOnP (· = '\n')).foldl f acc =
      (s.splitOnP isNewline).foldl f acc := by
  induction hn : s.length using Nat.strong_induction_on generalizing s acc with
  | _ n ih =>
    rcases line_cases isNewline s with h | ⟨l, e, t, rfl, hl, he⟩
    · have hcr : '\r' ∉ s := fun hm => (isNewline_false.mp (h _ hm)).2 rfl
      have hnl : ∀ c ∈ s, decide (c = '\n') = false := fun c hm =>
        decide_eq_false (isNewline_false.mp (h c hm)).1
      rw [universalNewlines_eq hcr, List.splitOnP_eq_singleton h, List.splitOnP_eq_singleton hnl]
    · have hcr : '\r' ∉ l := fun hm => (isNewline_false.mp (hl _ hm)).2 rfl
      have hnl : ∀ c ∈ l, decide (c = '\n') = false := fun c hm =>
        decide_eq_false (isNewline_false.mp (hl c hm)).1
      rw [List.length_append, List.length_cons] at hn
      rw [List.splitOnP_append_cons_of_forall_mem hl e he, universalNewlines_append hcr,
        List.foldl_cons]
      rcases isNewline_iff.mp he with rfl | rfl
      · rw [universalNewlines_newline, List.splitOnP_append_cons_of_forall_mem hnl _ rfl,
          List.foldl_cons, ih _ (by omega) t _ rfl]
      · rcases universalNewlines_return t with ⟨t', rfl, ht⟩ | ht
        · rw [List.length_cons] at hn
          rw [ht, List.splitOnP_append_cons_of_forall_mem hnl _ rfl, List.foldl_cons,
            ih _ (by omega) t' _ rfl,
            ← List.nil_append ('\n' :: t'), List.splitOnP_append_cons _ _ rfl,
            List.splitOnP_nil, List.singleton_append, List.foldl_cons, hblank]
        · rw [ht, List.splitOnP_append_cons_of_forall_mem hnl _ rfl, List.foldl_cons,
            ih _ (by omega) t _ rfl]

/-- Iterating over a text file. -/
theorem foldl_textLines (hblank : ∀ acc, f acc [] = acc)
    (hline : ∀ acc l, f acc (l ++ ['\n']) = f acc l) (s : List Char) (acc : β) :
    (textLines (universalNewlines s)).foldl f acc = (s.splitOnP isNewline).foldl f acc := by
  rw [foldl_textLines_newline hblank hline, foldl_universalNewlines hblank]

end

/-! ## Lines of the bytes -/

/-- No byte of a character outside ASCII is one of an ASCII character. -/
theorem utf8EncodeChar_ge {c : Char} (hc : 128 ≤ c.toNat) :
    ∀ x ∈ String.utf8EncodeChar c, 128 ≤ x.toNat := by
  have hlt : c.val.toNat < 0x110000 := by
    have := char_toNat_range c
    rw [Char.toNat] at this
    omega
  rw [Char.toNat] at hc
  intro x hx
  unfold String.utf8EncodeChar at hx
  dsimp only at hx
  rw [if_neg (by omega)] at hx
  split at hx
  next =>
    simp only [List.mem_cons, List.not_mem_nil, or_false] at hx
    rcases hx with rfl | rfl <;> rw [UInt8.toNat_ofNat'] <;> omega
  next =>
    split at hx
    next =>
      simp only [List.mem_cons, List.not_mem_nil, or_false] at hx
      rcases hx with rfl | rfl | rfl <;> rw [UInt8.toNat_ofNat'] <;> omega
    next =>
      simp only [List.mem_cons, List.not_mem_nil, or_false] at hx
      rcases hx with rfl | rfl | rfl | rfl <;> rw [UInt8.toNat_ofNat'] <;> omega

theorem utf8_newlines {e : Char} (he : isNewline e = true) :
    ∃ x, utf8 [e] = [x] ∧ isNewlineByte x = true := by
  rcases isNewline_iff.mp he with rfl | rfl
  · exact ⟨10, by decide, rfl⟩
  · exact ⟨13, by decide, rfl⟩

theorem isNewlineByte_utf8 {c : Char} (hc : isNewline c = false) :
    ∀ x ∈ utf8 [c], isNewlineByte x = false := by
  intro x hx
  rw [utf8, List.flatMap_singleton] at hx
  rw [isNewlineByte, Bool.or_eq_false_iff, decide_eq_false_iff_not, decide_eq_false_iff_not]
  rcases Nat.lt_or_ge c.toNat 128 with h | h
  · have hascii : utf8 [c] = [c.val.toUInt8] := utf8_ascii (List.forall_mem_singleton.mpr h)
    rw [utf8, List.flatMap_singleton] at hascii
    rw [hascii, List.mem_singleton] at hx
    have hx' : x.toNat = c.toNat := by
      rw [hx]
      show c.val.toNat % 256 = c.val.toNat
      exact Nat.mod_eq_of_lt (lt_trans h (by decide))
    obtain ⟨h1, h2⟩ := isNewline_false.mp hc
    have hne {y : UInt8} {d : Char} (hd : c ≠ d) (hy : y.toNat = d.toNat) : x ≠ y := by
      intro he
      exact hd (Char.toNat_inj.mp (by rw [← hx', he, hy]))
    exact ⟨hne h1 rfl, hne h2 rfl⟩
  · have hge := utf8EncodeChar_ge h x hx
    constructor
    · rintro rfl
      exact absurd hge (by decide)
    · rintro rfl
      exact absurd hge (by decide)

/-- The lines of the bytes are the bytes of the lines. -/
theorem splitOnP_utf8 (s : List Char) :
    (utf8 s).splitOnP isNewlineByte = (s.splitOnP isNewline).map utf8 := by
  induction hn : s.length using Nat.strong_induction_on generalizing s with
  | _ n ih =>
    have hplain {l : List Char} (hl : ∀ c ∈ l, isNewline c = false) :
        ∀ x ∈ utf8 l, isNewlineByte x = false := by
      intro x hx
      obtain ⟨c, hc, hx⟩ := List.mem_flatMap.mp hx
      exact isNewlineByte_utf8 (hl c hc) x (by rw [utf8, List.flatMap_singleton]; exact hx)
    rcases line_cases isNewline s with h | ⟨l, e, t, rfl, hl, he⟩
    · rw [List.splitOnP_eq_singleton h, List.splitOnP_eq_singleton (hplain h)]
      rfl
    · obtain ⟨x, hx, hxe⟩ := utf8_newlines he
      have ht : t.length < n := by
        rw [← hn, List.length_append, List.length_cons]
        omega
      rw [← List.singleton_append, utf8_append, utf8_append, hx, List.singleton_append,
        List.splitOnP_append_cons_of_forall_mem (hplain hl) x hxe, ih _ ht t rfl,
        List.singleton_append, List.splitOnP_append_cons_of_forall_mem hl e he, List.map_cons]

theorem decodeUtf8_cons (c : Char) (b : Bytes) :
    decodeUtf8 (utf8 [c] ++ b) = (decodeUtf8 b).map (c :: ·) := by
  have hcons : (utf8 [c] ++ b).toByteArray = [c].utf8Encode ++ b.toByteArray := by
    rw [← toByteArray_utf8, ← List.toByteArray_append]
  rw [decodeUtf8, decodeUtf8, hcons, ByteArray.utf8Decode?_utf8Encode_singleton_append,
    Option.map_map, Option.map_map]
  refine congrArg (Option.map · _) (funext fun a => ?_)
  exact Array.toList_append

/-- What follows a text is decoded on its own. -/
theorem decodeUtf8_append (s : List Char) (b : Bytes) :
    decodeUtf8 (utf8 s ++ b) = (decodeUtf8 b).map (s ++ ·) := by
  induction s with
  | nil => exact Option.map_id'.symm
  | cons c s ih =>
      rw [← List.singleton_append, utf8_append, List.append_assoc, decodeUtf8_cons, ih,
        Option.map_map]
      rfl

end Python
