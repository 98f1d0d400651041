import Corrlog.Python.Scan

/-!
# Texts that are read as a value

`Reads D t v` says that the decoder reads the text `t` as the value `v`, before
any text that does not prolong a number.  The lemmas follow the grammar: names,
numbers, strings, arrays and objects, with any white space after a comma or a
colon.  An encoder is correct if its text is read as the value it was given, and
that is proved along the encoder, with these lemmas and no look at the scanner.

A text is read as one value only (`Reads.unique`).
-/

namespace Python

/-- The first character of a value. -/
def valueStart (c : Char) : Bool := !isWs c && decide (c ≠ ']') && decide (c ≠ '\uFEFF')

/-- The decoder reads `t` as `v`. -/
structure Reads (D : Decoder) (t : List Char) (v : PyValue) : Prop where
  starts : ∃ c s, t = c :: s ∧ valueStart c = true
  scan : ∀ r, Terminated r → ∀ f, t.length < f → scanOnce D f (t ++ r) = some (v, r)

/-- The text of a string literal, with its quotes. -/
def ReadsString (t : List Char) (s : PyStr) : Prop :=
  ∃ u, t = '"' :: u ∧ ∀ r, scanString (u ++ r) = some (s, r)

/-- The text of an object member, with white space `sp` after the colon. -/
def ReadsMember (D : Decoder) (sp : List Char) (m : List Char) (kv : PyStr × PyValue) : Prop :=
  ∃ k t, m = k ++ ':' :: (sp ++ t) ∧ ReadsString k kv.1 ∧ Reads D t kv.2

theorem skipWs_of_not_ws {c : Char} (hc : isWs c = false) (s : List Char) :
    skipWs (c :: s) = c :: s := by
  rw [skipWs, List.dropWhile_cons_of_neg (by simp [hc])]

/-- White space at the start is skipped. -/
theorem skipWs_ws_append {sp : List Char} (hsp : ∀ c ∈ sp, isWs c = true) (s : List Char) :
    skipWs (sp ++ s) = skipWs s := by
  unfold skipWs
  rw [List.dropWhile_append_of_pos hsp]

theorem join_cons (sep t : List Char) (ts : List (List Char)) :
    ∃ x, join sep (t :: ts) = t ++ x := by
  cases ts with
  | nil => exact ⟨[], (List.append_nil t).symm⟩
  | cons t' ts => exact ⟨_, rfl⟩

/-- The first piece of a joined text, its comma, and the others. -/
theorem join_cons_append (sp t t' : List Char) (ts : List (List Char)) (r : List Char) :
    join (',' :: sp) (t :: t' :: ts) ++ r =
      t ++ ',' :: (sp ++ (join (',' :: sp) (t' :: ts) ++ r)) := by
  simp [join]

section

variable {D : Decoder}

namespace Reads

/-- No value is read from an empty text. -/
theorem ne_nil {t : List Char} {v : PyValue} (h : Reads D t v) : t ≠ [] := by
  obtain ⟨c, s, rfl, _⟩ := h.starts
  exact List.cons_ne_nil _ _

theorem length_pos {t : List Char} {v : PyValue} (h : Reads D t v) : 0 < t.length :=
  List.length_pos_iff.mpr h.ne_nil

/-- No white space in front of a value. -/
theorem skipWs_append {t : List Char} {v : PyValue} (h : Reads D t v) (r : List Char) :
    skipWs (t ++ r) = t ++ r := by
  obtain ⟨c, s, rfl, hc⟩ := h.starts
  simp only [valueStart, Bool.and_eq_true, Bool.not_eq_true'] at hc
  exact skipWs_of_not_ws hc.1.1 _

/-- A text is read as one value only. -/
theorem unique {t : List Char} {v w : PyValue} (hv : Reads D t v) (hw : Reads D t w) : v = w := by
  have h1 := hv.scan [] terminated_nil _ (Nat.lt_succ_self _)
  rw [hw.scan [] terminated_nil _ (Nat.lt_succ_self _)] at h1
  exact (congrArg Prod.fst (Option.some.inj h1)).symm

/-- The whole text is the value. -/
theorem loads {t : List Char} {v : PyValue} (h : Reads D t v) : loads D t = some v := by
  have hws := h.skipWs_append []
  have hscan := h.scan [] terminated_nil _ (Nat.lt_succ_self _)
  rw [List.append_nil] at hws hscan
  obtain ⟨c, s, rfl, hc⟩ := h.starts
  simp only [valueStart, Bool.and_eq_true, decide_eq_true_eq] at hc
  simp only [Python.loads, hws, hscan, List.head?_cons, Option.some.injEq, hc.2, if_false,
    Option.bind_some]
  rfl

/-! ## Names and numbers -/

/-- The names of constants are read as them. -/
theorem name {n : List Char × Option PyValue} (hn : n ∈ names D) {v : PyValue}
    (hv : n.2 = some v) : Reads D n.1 v := by
  have hstart : ∃ c s, n.1 = c :: s ∧ valueStart c = true ∧ c ≠ '"' ∧ c ≠ '{' ∧ c ≠ '[' := by
    simp only [names, List.mem_cons, List.not_mem_nil, or_false] at hn
    rcases hn with rfl | rfl | rfl | rfl | rfl | rfl <;> exact ⟨_, _, rfl, by decide⟩
  obtain ⟨c, s, hcs, hc, h1, h2, h3⟩ := hstart
  refine ⟨⟨c, s, hcs, hc⟩, fun r _ f hf => ?_⟩
  obtain ⟨f, rfl⟩ : ∃ g, f = g + 1 := ⟨f - 1, by omega⟩
  rw [hcs, List.cons_append, scanOnce_token f h1 h2 h3, ← List.cons_append, ← hcs,
    scanToken_name hn, hv, Option.map_some]

end Reads

end

/-- The text does not go on with a digit. -/
def NoDigit (r : List Char) : Prop := ∀ c ∈ r.head?, c.isDigit = false

/-- A run of digits ends where they do. -/
theorem takeWhile_digits {ds r : List Char} (hd : ∀ c ∈ ds, c.isDigit) (hr : NoDigit r) :
    (ds ++ r).takeWhile Char.isDigit = ds ∧ (ds ++ r).dropWhile Char.isDigit = r := by
  have hr' : r.takeWhile Char.isDigit = [] ∧ r.dropWhile Char.isDigit = r := by
    cases r with
    | nil => exact ⟨rfl, rfl⟩
    | cons c r =>
        have hc : ¬ c.isDigit = true := by rw [hr c rfl]; exact Bool.false_ne_true
        exact ⟨List.takeWhile_cons_of_neg hc, List.dropWhile_cons_of_neg hc⟩
  rw [List.takeWhile_append_of_pos hd, List.dropWhile_append_of_pos hd, hr'.1, hr'.2,
    List.append_nil]
  exact ⟨rfl, rfl⟩

/-- An integer part is a zero, or starts with another digit. -/
theorem scanInt_digits {ip r : List Char} (hd : ∀ c ∈ ip, c.isDigit)
    (hs : ip = ['0'] ∨ ∃ c cs, ip = c :: cs ∧ c ≠ '0') (hr : NoDigit r) :
    scanInt (ip ++ r) = some (ip, r) := by
  rcases hs with rfl | ⟨c, cs, rfl, hc⟩
  · rfl
  · obtain ⟨h1, h2⟩ := takeWhile_digits (fun x hx => hd x (List.mem_cons_of_mem _ hx)) hr
    rw [List.cons_append, scanInt, if_neg hc, if_pos (hd c List.mem_cons_self), h1, h2]

/-- A fraction is read with its point. -/
theorem scanFrac_digits {fp r : List Char} (hd : ∀ c ∈ fp, c.isDigit) (hr : NoDigit r)
    (hdot : r.head? ≠ some '.') : scanFrac (NumLit.fracText fp ++ r) = (fp, r) := by
  cases fp with
  | nil =>
      cases r with
      | nil => rfl
      | cons c r => exact scanFrac_of_ne (fun h => hdot (by rw [h]; rfl)) r
  | cons c fp =>
      obtain ⟨h1, h2⟩ := takeWhile_digits (fun x hx => hd x (List.mem_cons_of_mem _ hx)) hr
      rw [NumLit.fracText, if_neg (List.cons_ne_nil _ _), List.cons_append, List.cons_append,
        scanFrac_cons _ rfl (hd c List.mem_cons_self), h1, h2]

/-- An exponent is read with its sign. -/
theorem scanExp_digits {ex : Option (Bool × List Char)}
    (hex : ∀ neg ds, ex = some (neg, ds) → ds ≠ [] ∧ ∀ c ∈ ds, c.isDigit) {r : List Char}
    (hr : Terminated r) : scanExp (NumLit.expText ex ++ r) = (ex, r) := by
  cases ex with
  | none =>
      cases r with
      | nil => rfl
      | cons c r =>
          have hc := hr c rfl
          refine scanExp_of_ne ?_ ?_ r
          · rintro rfl; cases hc
          · rintro rfl; cases hc
  | some e =>
      obtain ⟨neg, ds⟩ := e
      obtain ⟨hne, hd⟩ := hex neg ds rfl
      have hnd : NoDigit r := fun c hc => by
        have := hr c hc
        simp only [numChar, Bool.or_eq_false_iff] at this
        exact this.1.1.1
      obtain ⟨h1, h2⟩ := takeWhile_digits hd hnd
      have hsign : scanSign ((if neg then '-' else '+') :: (ds ++ r)) = (neg, ds ++ r) := by
        cases neg <;> rfl
      simp only [NumLit.expText, List.cons_append, scanExp, hsign, h1, h2, true_or, true_and, ne_eq,
        hne, not_false_eq_true, if_true]

theorem Terminated.noDigit {r : List Char} (hr : Terminated r) : NoDigit r := fun c hc => by
  have := hr c hc
  simp only [numChar, Bool.or_eq_false_iff] at this
  exact this.1.1.1

theorem Terminated.head_ne {r : List Char} (hr : Terminated r) {c : Char} (hc : numChar c = true) :
    r.head? ≠ some c := fun h => by
  rw [hr c h] at hc
  cases hc

/-- A digit at the start of a literal. -/
theorem NumLit.Valid.ip_cons {l : NumLit} (hl : l.Valid) :
    ∃ c cs, l.ip = c :: cs ∧ c.isDigit = true := by
  rcases hl.ip_shape with h | ⟨c, cs, h, _⟩
  · exact ⟨'0', [], h, rfl⟩
  · exact ⟨c, cs, h, hl.ip_digits c (h ▸ List.mem_cons_self)⟩

/-- The literal of a number is read as the number, if nothing prolongs it. -/
theorem scanBody_body {l : NumLit} (hl : l.Valid) {r : List Char} (hr : Terminated r) :
    scanBody l.neg (l.body ++ r) = some (l, r) := by
  have hexp := scanExp_digits hl.ex_shape hr
  have hexpd : NoDigit (NumLit.expText l.ex ++ r) := by
    cases hex : l.ex with
    | none => exact hr.noDigit
    | some e => rintro _ ⟨⟩; rfl
  have hexpdot : (NumLit.expText l.ex ++ r).head? ≠ some '.' := by
    cases hex : l.ex with
    | none => exact hr.head_ne rfl
    | some e => rintro ⟨⟩
  have hfrac := scanFrac_digits hl.fp_digits hexpd hexpdot
  have hfracd : NoDigit (NumLit.fracText l.fp ++ (NumLit.expText l.ex ++ r)) := by
    rw [NumLit.fracText]
    split
    · exact hexpd
    · rintro _ ⟨⟩; rfl
  have hint := scanInt_digits hl.ip_digits hl.ip_shape hfracd
  rw [NumLit.body, List.append_assoc, List.append_assoc]
  simp only [scanBody, hint, Option.map_some, hfrac, hexp]

/-- A valid literal is scanned in whole. -/
theorem scanLit_text {l : NumLit} (hl : l.Valid) {r : List Char} (hr : Terminated r) :
    scanLit (l.text ++ r) = some (l, r) := by
  have hbody := scanBody_body hl hr
  rw [NumLit.text, scanLit]
  cases hneg : l.neg with
  | true =>
      rw [hneg] at hbody
      exact hbody
  | false =>
      rw [hneg] at hbody
      obtain ⟨c, cs, hip, hc⟩ := hl.ip_cons
      have hhead : (l.body ++ r).head? = some c := by rw [NumLit.body, hip]; rfl
      have hne : c ≠ '-' := by rintro rfl; cases hc
      simp only [NumLit.signText, Bool.false_eq_true, if_false, List.nil_append, hhead,
        Option.some.injEq, hne]
      exact hbody

namespace Reads

variable {D : Decoder}

/-- A number is read from its literal. -/
theorem number {l : NumLit} (hl : l.Valid) {v : PyValue} (hv : litValue l = some v) :
    Reads D l.text v := by
  obtain ⟨c, cs, hip, hc⟩ := hl.ip_cons
  -- the text starts with the digit `c` or with a sign before it
  obtain ⟨s, hs⟩ : ∃ s, l.text = c :: s ∨ l.text = '-' :: c :: s := by
    rw [NumLit.text, NumLit.body, hip]
    cases l.neg with
    | true => exact ⟨_, Or.inr rfl⟩
    | false => exact ⟨_, Or.inl rfl⟩
  have hstart : ∃ d s', l.text = d :: s' ∧ (d.isDigit = true ∨ d = '-') := by
    rcases hs with hs | hs
    · exact ⟨c, s, hs, Or.inl hc⟩
    · exact ⟨'-', c :: s, hs, Or.inr rfl⟩
  obtain ⟨d, s', hd, hdd⟩ := hstart
  have hne : ∀ x : Char, x.isDigit = false → x ≠ '-' → d ≠ x := by
    rintro x hx hx' rfl
    rcases hdd with h | h
    · rw [hx] at h; cases h
    · exact hx' h
  refine ⟨⟨d, s', hd, ?_⟩, fun r hr f hf => ?_⟩
  · simp only [valueStart, isWs, Bool.and_eq_true, Bool.not_eq_true', Bool.or_eq_false_iff,
      decide_eq_false_iff_not, decide_eq_true_eq]
    exact ⟨⟨⟨⟨⟨hne _ rfl (by decide), hne _ rfl (by decide)⟩, hne _ rfl (by decide)⟩,
      hne _ rfl (by decide)⟩, hne _ rfl (by decide)⟩, hne _ rfl (by decide)⟩
  · obtain ⟨f, rfl⟩ : ∃ g, f = g + 1 := ⟨f - 1, by omega⟩
    have hs' : l.text ++ r = c :: (s ++ r) ∨ l.text ++ r = '-' :: c :: (s ++ r) := by
      rcases hs with hs | hs
      · exact Or.inl (by rw [hs]; rfl)
      · exact Or.inr (by rw [hs]; rfl)
    have hstep : scanOnce D (f + 1) (l.text ++ r) = scanToken D (l.text ++ r) := by
      rw [hd, List.cons_append]
      exact scanOnce_token f (hne _ rfl (by decide)) (hne _ rfl (by decide))
        (hne _ rfl (by decide)) _
    rw [hstep, scanToken_number hc hs', scanNumber, scanLit_text hl hr, Option.bind_some, hv,
      Option.map_some]

/-! ## Strings and containers -/

/-- A string is read from its quoted text. -/
theorem str {t : List Char} {s : PyStr} (h : ReadsString t s) : Reads D t (.str s) := by
  obtain ⟨u, rfl, hu⟩ := h
  refine ⟨⟨'"', u, rfl, by decide⟩, fun r _ f hf => ?_⟩
  obtain ⟨f, rfl⟩ : ∃ g, f = g + 1 := ⟨f - 1, by omega⟩
  rw [List.cons_append, scanOnce_string, hu, Option.map_some]

/-- The elements, as `join` puts them, up to the closing bracket. -/
theorem elements {sp : List Char} (hsp : ∀ c ∈ sp, isWs c = true) {ts : List (List Char)}
    {vs : List PyValue} (h : List.Forall₂ (Reads D) ts vs) (hne : ts ≠ []) (r : List Char) :
    ∀ f, (join (',' :: sp) ts).length + 1 < f →
      parseElements D f (join (',' :: sp) ts ++ ']' :: r) = some (vs, r) := by
  induction h with
  | nil => exact absurd rfl hne
  | @cons t v ts vs ht hts ih =>
      intro f hf
      obtain ⟨f, rfl⟩ : ∃ g, f = g + 1 := ⟨f - 1, by omega⟩
      have hpos := ht.length_pos
      cases hts with
      | nil =>
          rw [join] at hf ⊢
          exact parseElements_iff.mpr ⟨_, ht.scan _ (terminated_cons rfl r) f (by omega),
            Or.inl ⟨r, skipWs_of_not_ws rfl _, rfl⟩⟩
      | @cons t' v' ts vs ht' hts =>
          have hnext := ih (List.cons_ne_nil _ _)
          obtain ⟨x, hx⟩ := join_cons (',' :: sp) t' ts
          have hlen := congrArg List.length (join_cons_append sp t t' ts [])
          simp only [List.length_append, List.length_cons, List.length_nil] at hlen
          rw [join_cons_append]
          refine parseElements_iff.mpr ⟨_, ht.scan _ (terminated_cons rfl _) f (by omega),
            Or.inr ⟨_, (v' :: vs, r), skipWs_of_not_ws rfl _, ?_, rfl⟩⟩
          rw [skipWs_ws_append hsp, hx, List.append_assoc, ht'.skipWs_append, ← List.append_assoc,
            ← hx]
          exact hnext f (by omega)

/-- A list is read from the texts of its elements. -/
theorem list {sp : List Char} (hsp : ∀ c ∈ sp, isWs c = true) {ts : List (List Char)}
    {vs : List PyValue} (h : List.Forall₂ (Reads D) ts vs) :
    Reads D ('[' :: (join (',' :: sp) ts ++ [']'])) (.list vs) := by
  refine ⟨⟨_, _, rfl, by decide⟩, fun r _ f hf => ?_⟩
  obtain ⟨f, rfl⟩ : ∃ g, f = g + 1 := ⟨f - 1, by omega⟩
  simp only [List.length_cons, List.length_append, List.length_nil] at hf
  rw [List.cons_append, List.append_assoc]
  cases h with
  | nil => exact scanOnce_array_iff.mpr (Or.inl ⟨r, skipWs_of_not_ws rfl _, rfl⟩)
  | @cons t v ts vs ht hts =>
      obtain ⟨x, hx⟩ := join_cons (',' :: sp) t ts
      refine scanOnce_array_iff.mpr (Or.inr ⟨(v :: vs, r), ?_, rfl⟩)
      rw [hx, List.append_assoc, ht.skipWs_append, ← List.append_assoc, ← hx]
      exact elements hsp (.cons ht hts) (List.cons_ne_nil _ _) r f (by omega)

/-- One member, up to what follows its value. -/
theorem member {sp : List Char} (hsp : ∀ c ∈ sp, isWs c = true) {m : List Char}
    {kv : PyStr × PyValue} (h : ReadsMember D sp m kv) {r : List Char} (hr : Terminated r) {f : ℕ}
    (hf : m.length < f + 1) :
    ∃ s1 s2 k, m ++ r = '"' :: s1 ∧ scanString s1 = some (kv.1, k) ∧ skipWs k = ':' :: s2 ∧
      scanOnce D f (skipWs s2) = some (kv.2, r) := by
  obtain ⟨_, t, rfl, ⟨u, rfl, hu⟩, ht⟩ := h
  simp only [List.length_append, List.length_cons] at hf
  refine ⟨u ++ ':' :: (sp ++ (t ++ r)), sp ++ (t ++ r), ':' :: (sp ++ (t ++ r)), by simp, hu _,
    skipWs_of_not_ws rfl _, ?_⟩
  rw [skipWs_ws_append hsp, ht.skipWs_append]
  exact ht.scan r hr f (by omega)

theorem skipWs_members {sp sep m : List Char} {kv : PyStr × PyValue} (hm : ReadsMember D sp m kv)
    (ms : List (List Char)) (r : List Char) :
    skipWs (join sep (m :: ms) ++ r) = join sep (m :: ms) ++ r := by
  obtain ⟨_, t, rfl, ⟨u, rfl, _⟩, _⟩ := hm
  obtain ⟨x, hx⟩ := join_cons sep ('"' :: u ++ ':' :: (sp ++ t)) ms
  rw [hx]
  exact skipWs_of_not_ws rfl _

/-- The members, as `join` puts them, up to the closing brace. -/
theorem members {sp sp' : List Char} (hsp : ∀ c ∈ sp, isWs c = true)
    (hsp' : ∀ c ∈ sp', isWs c = true) {ms : List (List Char)} {kvs : List (PyStr × PyValue)}
    (h : List.Forall₂ (ReadsMember D sp') ms kvs) (hne : ms ≠ []) (r : List Char) :
    ∀ f, (join (',' :: sp) ms).length < f →
      parseMembers D f (join (',' :: sp) ms ++ '}' :: r) = some (kvs, r) := by
  induction h with
  | nil => exact absurd rfl hne
  | @cons m kv ms kvs hm hms ih =>
      intro f hf
      obtain ⟨f, rfl⟩ : ∃ g, f = g + 1 := ⟨f - 1, by omega⟩
      cases hms with
      | nil =>
          rw [join] at hf ⊢
          obtain ⟨s1, s2, k, h1, h2, h3, h4⟩ :=
            member hsp' hm (terminated_cons (c := '}') rfl r) hf
          exact parseMembers_iff.mpr ⟨s1, _, s2, _, h1, h2, h3, h4,
            Or.inl ⟨r, skipWs_of_not_ws rfl _, rfl⟩⟩
      | @cons m' kv' ms kvs hm' hms =>
          have hnext := ih (List.cons_ne_nil _ _)
          have hlen := congrArg List.length (join_cons_append sp m m' ms [])
          simp only [List.length_append, List.length_cons, List.length_nil] at hlen
          rw [join_cons_append]
          obtain ⟨s1, s2, k, h1, h2, h3, h4⟩ := member hsp' hm (terminated_cons (c := ',') rfl
            (sp ++ (join (',' :: sp) (m' :: ms) ++ '}' :: r))) (f := f) (by omega)
          refine parseMembers_iff.mpr ⟨s1, _, s2, _, h1, h2, h3, h4,
            Or.inr ⟨_, (kv' :: kvs, r), skipWs_of_not_ws rfl _, ?_, rfl⟩⟩
          rw [skipWs_ws_append hsp, skipWs_members hm']
          exact hnext f (by omega)

/-- A dict is read from the texts of its members. -/
theorem dict {sp sp' : List Char} (hsp : ∀ c ∈ sp, isWs c = true)
    (hsp' : ∀ c ∈ sp', isWs c = true) {ms : List (List Char)} {kvs : List (PyStr × PyValue)}
    (h : List.Forall₂ (ReadsMember D sp') ms kvs) {v : PyValue} (hv : D.object kvs = some v) :
    Reads D ('{' :: (join (',' :: sp) ms ++ ['}'])) v := by
  refine ⟨⟨_, _, rfl, by decide⟩, fun r _ f hf => ?_⟩
  obtain ⟨f, rfl⟩ : ∃ g, f = g + 1 := ⟨f - 1, by omega⟩
  rw [List.length_cons, List.length_append] at hf
  rw [List.cons_append, List.append_assoc]
  cases h with
  | nil => exact scanOnce_object_iff.mpr (Or.inl ⟨r, skipWs_of_not_ws rfl _, by rw [hv]; rfl⟩)
  | @cons m kv ms kvs hm hms =>
      refine scanOnce_object_iff.mpr (Or.inr ⟨(kv :: kvs, r), ?_, by rw [hv]; rfl⟩)
      rw [skipWs_members hm]
      exact members hsp hsp' (.cons hm hms) (List.cons_ne_nil _ _) r f (by omega)

end Reads

/-! ## String encoders -/

/-- The text `t` spells the units `us`. -/
def Spells (t : List Char) (us : List StrUnit) : Prop :=
  ∀ r, scanUnits (t ++ r) = (scanUnits r).map fun p => (us ++ p.1, p.2)

theorem Spells.nil : Spells [] [] := fun r => by
  cases h : scanUnits r with
  | none => rw [List.nil_append, h]; rfl
  | some p => rw [List.nil_append, h]; rfl

/-- Texts of units one after the other. -/
theorem Spells.append {t t' : List Char} {us us' : List StrUnit} (h : Spells t us)
    (h' : Spells t' us') : Spells (t ++ t') (us ++ us') := fun r => by
  rw [List.append_assoc, h, h', Option.map_map]
  congr 1
  funext p
  exact congrArg (·, p.2) (List.append_assoc _ _ _).symm

theorem Spells.flatMap {f : CodePoint → List Char} {g : CodePoint → List StrUnit} {s : PyStr}
    (h : ∀ c ∈ s, Spells (f c) (g c)) : Spells (s.flatMap f) (s.flatMap g) := by
  induction s with
  | nil => exact Spells.nil
  | cons c s ih =>
      rw [List.flatMap_cons, List.flatMap_cons]
      exact (h c List.mem_cons_self).append (ih fun d hd => h d (List.mem_cons_of_mem _ hd))

/-- A character that needs no escape. -/
theorem Spells.char {c : Char} (h1 : c ≠ '"') (h2 : c ≠ '\\') (h3 : ¬ c.toNat < 0x20) :
    Spells [c] [.char c] := fun r => scanUnits_char h1 h2 h3 r

/-- A two-character escape. -/
theorem Spells.short {e y : Char} (he : e ≠ 'u') (hy : unescape e = some y) :
    Spells ['\\', e] [.char y] := fun r => by
  rw [List.cons_append, List.cons_append, List.nil_append, scanUnits_escape he, hy,
    Option.bind_some]
  rfl

/-- Four hexadecimal digits. -/
theorem Spells.hex {a b c d : Char} {u : ℕ} (h : hex4 a b c d = some u) :
    Spells ['\\', 'u', a, b, c, d] [.escape u] := fun r => by
  simp only [List.cons_append, List.nil_append, scanUnits_hex, h, Option.bind_some]
  rfl

/-- `"%04x" % u`. -/
def hexText (u : ℕ) : List Char :=
  [Nat.digitChar (u / 4096 % 16), Nat.digitChar (u / 256 % 16), Nat.digitChar (u / 16 % 16),
    Nat.digitChar (u % 16)]

/-- The digits are read as they were written. -/
theorem hexVal_digitChar : ∀ n < 16, hexVal (Nat.digitChar n) = some n := by decide

/-- Four digits spell a unit. -/
theorem Spells.hexText {u : ℕ} (hu : u < 0x10000) :
    Spells ('\\' :: 'u' :: Python.hexText u) [.escape u] := by
  refine Spells.hex ?_
  simp only [hex4, hexVal_digitChar _ (Nat.mod_lt _ (by decide : 0 < 16)), Option.bind_eq_bind,
    Option.bind_some, Option.pure_def, Option.some.injEq]
  omega

/-- Quoted units are a string literal. -/
theorem Spells.readsString {t : List Char} {us : List StrUnit} (h : Spells t us) {s : PyStr}
    (hs : joinPairs us = s) : ReadsString ('"' :: (t ++ ['"'])) s := by
  refine ⟨_, rfl, fun r => ?_⟩
  rw [List.append_assoc, scanString, h]
  simp [hs]

end Python
