import Corrlog.Rfc8785.Text

/-!
# The layout of canonical JSON

What RFC 8785 fixes of a text besides the spelling of numbers: the members of an
object are listed once each, in the strict order of the UTF-16 code units of
their names, the elements of an array in their order, and there is no white
space outside strings.  The text `canonical_json` gives a value has this layout at
every depth (`canonicalJson_layout`), and sorting by UTF-16 bytes is sorting by
code units (`bytesLe_utf16_iff`).
-/

namespace Corrlog.Rfc8785

open Python
open Binary64 (ofInt)

/-! ## The layout -/

/-- A JSON number. -/
def IsNumber (t : List Char) : Prop := ∃ l : NumLit, l.Valid ∧ t = l.text

mutual

/-- A text of the value without white space, its members in order. -/
def Layout : PyValue → List Char → Prop
  | .none, t => t = nullText
  | .bool b, t => t = boolText b
  | .int _, t => IsNumber t
  | .float _, t => IsNumber t
  | .str s, t => ∃ cs, s = ofChars cs ∧ t = quoted cs
  | .list xs, t => ∃ ts, LayoutList xs ts ∧ t = '[' :: (join [','] ts ++ [']'])
  | .tuple xs, t => ∃ ts, LayoutList xs ts ∧ t = '[' :: (join [','] ts ++ [']'])
  | .dict items, t =>
      ∃ ms ms', LayoutItems items ms ∧ ms'.Perm ms ∧ Ordered ms' ∧ t = objectText ms'
  | .other _, _ => False

/-- Element by element. -/
def LayoutList : List PyValue → List (List Char) → Prop
  | [], ts => ts = []
  | x :: xs, ts => ∃ u us, ts = u :: us ∧ Layout x u ∧ LayoutList xs us

/-- Member by member. -/
def LayoutItems : Items → List Member → Prop
  | [], ms => ms = []
  | (.str k, v) :: items, ms =>
      ∃ cs u ms', ms = (cs, u) :: ms' ∧ k = ofChars cs ∧ Layout v u ∧ LayoutItems items ms'
  | _ :: _, _ => False

end

/-! ## The renderer has it -/

theorem isNumber_of_jcsDouble {x : Binary64} {t : List Char} (h : jcsDouble x = .ok t) :
    IsNumber t := by
  cases x with
  | finite neg m =>
      rw [jcsDouble_finite, Except.ok.injEq] at h
      exact ⟨_, (esNumber_spec neg m).1, h.symm⟩
  | inf neg => cases h
  | nan => cases h

/-- An integer is laid out as the number it is rounded to. -/
theorem isNumber_of_jcsNumber {n : ℤ} {t : List Char} (h : jcsNumber (.int n) = .ok t) :
    IsNumber t := by
  rw [jcsNumber, jcsInteger] at h
  split at h
  next => exact isNumber_of_jcsDouble h
  next => cases h

/-- The elements of a list are laid out in their order. -/
theorem layoutList_of_render {xs : List PyValue} {ts : List (List Char)}
    (ih : ∀ x ∈ xs, ∀ t, jcsRender x = .ok t → Layout x t) (h : jcsRenderList xs = .ok ts) :
    LayoutList xs ts := by
  induction xs generalizing ts with
  | nil =>
      rw [jcsRenderList, Except.ok.injEq] at h
      exact h.symm
  | cons x xs ihs =>
      obtain ⟨ihx, ih⟩ := List.forall_mem_cons.mp ih
      rw [jcsRenderList] at h
      obtain ⟨u, hu, h⟩ := bind_eq_ok.mp h
      obtain ⟨us, hus, h⟩ := bind_eq_ok.mp h
      cases h
      exact ⟨u, us, rfl, ihx u hu, ihs ih hus⟩

/-- The members of a dict are laid out before they are sorted. -/
theorem layoutItems_of_render {items : Items} {ms : List Member}
    (ih : ∀ kv ∈ items, ∀ t, jcsRender kv.2 = .ok t → Layout kv.2 t)
    (h : jcsRenderItems items = ms.map fun m => (.str (ofChars m.1), .ok m.2)) :
    LayoutItems items ms := by
  induction items generalizing ms with
  | nil => exact List.map_eq_nil_iff.mp h.symm
  | cons kv items ihs =>
      obtain ⟨k, v⟩ := kv
      obtain ⟨ihv, iht⟩ := List.forall_mem_cons.mp ih
      rw [jcsRenderItems] at h
      cases ms with
      | nil => cases h
      | cons m ms =>
          rw [List.map_cons, List.cons.injEq, Prod.mk.injEq] at h
          obtain ⟨⟨rfl, hu⟩, hms⟩ := h
          exact ⟨m.1, m.2, ms, rfl, rfl, ihv m.2 hu, ihs iht hms⟩

/-- Whatever the renderer writes is a layout of its value. -/
theorem layout_of_jcsRender {v : PyValue} (hwf : v.WF) {t : List Char} (h : jcsRender v = .ok t) :
    Layout v t := by
  induction v generalizing t with
  | none => rw [jcsRender, Except.ok.injEq] at h; exact h.symm
  | bool b => rw [jcsRender, Except.ok.injEq] at h; exact h.symm
  | int n => rw [jcsRender] at h; exact isNumber_of_jcsNumber h
  | float x => rw [jcsRender, jcsNumber] at h; exact isNumber_of_jcsDouble h
  | str s => rw [jcsRender] at h; exact jcsEscapeString_iff.mp h
  | list xs ih =>
      rw [jcsRender] at h
      obtain ⟨ts, hts, rfl⟩ := map_eq_ok.mp h
      refine ⟨ts, layoutList_of_render (fun x hx t ht => ?_) hts, rfl⟩
      exact ih x hx ((PyValue.wf_list xs).mp hwf x hx) ht
  | tuple xs ih =>
      rw [jcsRender] at h
      obtain ⟨ts, hts, rfl⟩ := map_eq_ok.mp h
      refine ⟨ts, layoutList_of_render (fun x hx t ht => ?_) hts, rfl⟩
      exact ih x hx ((PyValue.wf_tuple xs).mp hwf x hx) ht
  | dict items ih =>
      obtain ⟨ms, hms⟩ := exists_members hwf h
      obtain ⟨hnd, hwfs⟩ := (PyValue.wf_dict items).mp hwf
      obtain ⟨ms', hp, hord, hsort⟩ := exists_ordered (nodup_names hnd hms)
      rw [jcsRender_dict_of_members hms hsort, Except.ok.injEq] at h
      refine ⟨ms, ms', layoutItems_of_render (fun kv hkv t ht => ?_) hms, hp, hord, h.symm⟩
      exact ih kv hkv (hwfs kv hkv) ht
  | other o => rw [jcsRender] at h; cases h

/-! ## White space -/

/-- Where in a JSON text a character stands. -/
inductive Place where
  | outside
  | inside
  | escaped

/-- The characters outside strings. -/
def outer : Place → List Char → List Char
  | _, [] => []
  | .outside, c :: s => if c = '"' then outer .inside s else c :: outer .outside s
  | .inside, c :: s =>
      if c = '"' then outer .outside s
      else if c = '\\' then outer .escaped s
      else outer .inside s
  | .escaped, _ :: s => outer .inside s

/-- A part of a text with whole strings and no white space outside them. -/
def Compact (t : List Char) : Prop :=
  ∃ u, (∀ c ∈ u, isWs c = false) ∧ ∀ r, outer .outside (t ++ r) = u ++ outer .outside r

/-- Outside strings a compact text has no white space. -/
theorem Compact.noWs {t : List Char} (h : Compact t) : ∀ c ∈ outer .outside t, isWs c = false := by
  obtain ⟨u, hu, hr⟩ := h
  intro c hc
  have hnil := hr []
  rw [List.append_nil, outer, List.append_nil] at hnil
  exact hu c (hnil ▸ hc)

theorem Compact.append {t t' : List Char} (h : Compact t) (h' : Compact t') :
    Compact (t ++ t') := by
  obtain ⟨u, hu, hr⟩ := h
  obtain ⟨u', hu', hr'⟩ := h'
  refine ⟨u ++ u', fun c hc => (List.mem_append.mp hc).elim (hu c) (hu' c), fun r => ?_⟩
  rw [List.append_assoc, hr, hr', List.append_assoc]

/-- A text without quotes is compact if it has no white space. -/
theorem Compact.plain {t : List Char} (h : ∀ c ∈ t, isWs c = false ∧ c ≠ '"') : Compact t := by
  refine ⟨t, fun c hc => (h c hc).1, fun r => ?_⟩
  induction t with
  | nil => rfl
  | cons c t ih =>
      obtain ⟨hc, ht⟩ := List.forall_mem_cons.mp h
      rw [List.cons_append, outer, if_neg hc.2, ih ht, List.cons_append]

/-- A literal part of a text is checked by running through it. -/
theorem Compact.lit {t : List Char} (h : t.all (fun c => !isWs c && decide (c ≠ '"')) = true) :
    Compact t := by
  refine Compact.plain fun c hc => ?_
  have hc := List.all_eq_true.mp h c hc
  rw [Bool.and_eq_true, Bool.not_eq_true', decide_eq_true_eq] at hc
  exact hc

/-- Commas between compact texts. -/
theorem Compact.join {ts : List (List Char)} (h : ∀ t ∈ ts, Compact t) :
    Compact (join [','] ts) := by
  induction ts with
  | nil => exact Compact.lit rfl
  | cons t ts ih =>
      obtain ⟨ht, hts⟩ := List.forall_mem_cons.mp h
      cases ts with
      | nil => exact ht
      | cons t' ts => exact ht.append ((Compact.lit rfl).append (ih hts))

theorem outer_hexText (u : ℕ) (r : List Char) :
    outer .inside (hexText u ++ r) = outer .inside r := by
  have hdigit : ∀ n < 16, Nat.digitChar n ≠ '"' ∧ Nat.digitChar n ≠ '\\' := by decide
  have hstep (n : ℕ) (s : List Char) :
      outer .inside (Nat.digitChar (n % 16) :: s) = outer .inside s := by
    have hn := hdigit (n % 16) (Nat.mod_lt _ (by decide))
    rw [outer, if_neg hn.1, if_neg hn.2]
  simp only [hexText, List.cons_append, List.nil_append, hstep]

/-- An escape leaves the scanner within its string. -/
theorem outer_escape (c : Char) (r : List Char) :
    outer .inside (escape c ++ r) = outer .inside r := by
  unfold escape
  split
  next => rfl
  split
  next => rfl
  split
  next => rfl
  split
  next => rfl
  split
  next => rfl
  split
  next => exact outer_hexText _ r
  split
  next => rfl
  split
  next => rfl
  next hback hquote => rw [List.singleton_append, outer, if_neg hquote, if_neg hback]

/-- A string is compact: the white space in it is inside. -/
theorem Compact.quoted (cs : List Char) : Compact (quoted cs) := by
  refine ⟨[], fun c hc => absurd hc List.not_mem_nil, fun r => ?_⟩
  have hinside : outer .inside (cs.flatMap escape ++ ('"' :: r)) = outer .outside r := by
    induction cs with
    | nil => rfl
    | cons c cs ih => rw [List.flatMap_cons, List.append_assoc, outer_escape, ih]
  rw [Rfc8785.quoted, List.cons_append, List.append_assoc]
  exact hinside

/-- No number has white space. -/
theorem Compact.number {t : List Char} (h : IsNumber t) : Compact t := by
  obtain ⟨l, hl, rfl⟩ := h
  refine Compact.plain (hl.forall_text (fun c hc => ?_) ?_ ?_ ?_)
  · refine ⟨?_, ne_of_isDigit hc rfl⟩
    have hne {x : Char} (hx : x.isDigit = false) : c ≠ x := ne_of_isDigit hc hx
    simp only [isWs, hne (x := ' ') rfl, hne (x := '\t') rfl, hne (x := '\n') rfl,
      hne (x := '\r') rfl, decide_false, Bool.or_false]
  · exact ⟨⟨rfl, by decide⟩, rfl, by decide⟩
  · exact ⟨rfl, by decide⟩
  · exact ⟨rfl, by decide⟩

theorem compact_layoutList {xs : List PyValue} {ts : List (List Char)}
    (ih : ∀ x ∈ xs, ∀ t, Layout x t → Compact t) (h : LayoutList xs ts) : ∀ t ∈ ts, Compact t := by
  induction xs generalizing ts with
  | nil =>
      cases h
      exact fun t ht => absurd ht List.not_mem_nil
  | cons x xs ihs =>
      obtain ⟨ihx, ih⟩ := List.forall_mem_cons.mp ih
      obtain ⟨u, us, rfl, hu, hus⟩ := h
      exact List.forall_mem_cons.mpr ⟨ihx u hu, ihs ih hus⟩

theorem compact_layoutItems {items : Items} {ms : List Member}
    (ih : ∀ kv ∈ items, ∀ t, Layout kv.2 t → Compact t) (h : LayoutItems items ms) :
    ∀ m ∈ ms, Compact m.2 := by
  induction items generalizing ms with
  | nil =>
      cases h
      exact fun m hm => absurd hm List.not_mem_nil
  | cons kv items ihs =>
      obtain ⟨k, v⟩ := kv
      obtain ⟨ihv, iht⟩ := List.forall_mem_cons.mp ih
      cases k with
      | str k =>
          obtain ⟨cs, u, ms', rfl, _, hu, hms⟩ := h
          exact List.forall_mem_cons.mpr ⟨ihv u hu, ihs iht hms⟩
      | _ => exact h.elim

/-- A text with the layout has no white space outside strings. -/
theorem Layout.compact {v : PyValue} {t : List Char} (h : Layout v t) : Compact t := by
  induction v generalizing t with
  | none => cases h; exact Compact.lit rfl
  | bool b =>
      cases h
      cases b with
      | true => exact Compact.lit rfl
      | false => exact Compact.lit rfl
  | int n => exact Compact.number h
  | float x => exact Compact.number h
  | str s =>
      obtain ⟨cs, _, rfl⟩ := h
      exact Compact.quoted cs
  | list xs ih =>
      obtain ⟨ts, hts, rfl⟩ := h
      have helems := Compact.join (compact_layoutList (fun x hx t => ih x hx) hts)
      exact (Compact.lit (t := ['[']) rfl).append (helems.append (Compact.lit rfl))
  | tuple xs ih =>
      obtain ⟨ts, hts, rfl⟩ := h
      have helems := Compact.join (compact_layoutList (fun x hx t => ih x hx) hts)
      exact (Compact.lit (t := ['[']) rfl).append (helems.append (Compact.lit rfl))
  | dict items ih =>
      obtain ⟨ms, ms', hms, hp, _, rfl⟩ := h
      have hvals := compact_layoutItems (fun kv hkv t => ih kv hkv) hms
      have hmembers : ∀ u ∈ ms'.map Member.text, Compact u := by
        intro u hu
        obtain ⟨m, hm, rfl⟩ := List.mem_map.mp hu
        have hcolon : Compact (':' :: m.2) :=
          (Compact.lit (t := [':']) rfl).append (hvals m (hp.mem_iff.mp hm))
        exact (Compact.quoted m.1).append hcolon
      exact (Compact.lit (t := ['{']) rfl).append ((Compact.join hmembers).append (Compact.lit rfl))
  | other o => exact h.elim

/-! ## The order of the bytes -/

theorem codeUnits_injective : Function.Injective codeUnits := fun cs ds h =>
  ofChars_injective (flatMap_utf16Units_injective (noSurrogates_ofChars cs)
    (noSurrogates_ofChars ds) h)

/-- The sort keys of names are in the order of the code units of the names. -/
theorem bytesLe_utf16_iff (cs ds : List Char) :
    bytesLe (encodeUtf16be (ofChars cs)) (encodeUtf16be (ofChars ds)) = true ↔
      List.Lex (· < ·) (codeUnits cs) (codeUnits ds) ∨ cs = ds := by
  have hunits (cs : List Char) : ∀ u ∈ codeUnits cs, u < 0x10000 := by
    intro u hu
    obtain ⟨c, _, hc⟩ := List.mem_flatMap.mp hu
    exact utf16Units_lt c u hc
  rw [← codeUnits_injective.eq_iff (a := cs)]
  exact bytesLe_unitBytes (hunits cs) (hunits ds)

/-- What `canonical_json` returns is a JSON text without white space outside
strings, with every object's members listed once each in the strict order of code
units and every array's elements in their order. -/
theorem canonicalJson_layout :
    (∀ (v : PyObject) b, canonicalJson v.val = .ok b →
      ∃ t w, b = utf8 t ∧ Layout v.val t ∧ (∀ c ∈ outer .outside t, isWs c = false) ∧
        loads .default t = some w ∧ PyValue.Same v.val w) ∧
    ∀ cs ds,
      (bytesLe (encodeUtf16be (ofChars cs)) (encodeUtf16be (ofChars ds)) = true ↔
        List.Lex (· < ·) (codeUnits cs) (codeUnits ds) ∨ cs = ds) ∧
      (encodeUtf16be (ofChars cs) = encodeUtf16be (ofChars ds) ↔ cs = ds) := by
  refine ⟨fun v b h => ?_, fun cs ds => ⟨bytesLe_utf16_iff cs ds, fun h => ?_, fun h => h ▸ rfl⟩⟩
  · obtain ⟨t, ht, rfl⟩ := canonicalJson_ok_iff.mp h
    have hlayout := layout_of_jcsRender v.wf ht
    obtain ⟨t', ht', w, hw, hsame, _⟩ :=
      reads_jcsRender Decoder.default_plain v.wf (jsonAble_of_jcsRender ht)
    cases ht.symm.trans ht'
    exact ⟨t, w, rfl, hlayout, hlayout.compact.noWs, hw.loads, hsame⟩
  · exact ofChars_injective (encodeUtf16be_injective (noSurrogates_ofChars cs)
      (noSurrogates_ofChars ds) h)

/-- A dict with an astral name and a later one of the basic plane. -/
def astral : PyObject where
  val := .dict [(.str (ofChars [Char.ofNat 0xE000]), .int 2),
    (.str (ofChars [Char.ofNat 0x10000]), .int 1)]
  wf := by decide +kernel

/-- The canonical text of the object, in which the key that comes first has the larger code
point. -/
def astralText : List Char :=
  ['{', '"', Char.ofNat 0x10000, '"', ':', '1', ',', '"', Char.ofNat 0xE000, '"', ':', '2', '}']

theorem canonicalJson_layout_astral : Layout astral.val astralText := by
  have h : canonicalJson astral.val = .ok (utf8 astralText) := by decide +kernel
  obtain ⟨t, w, ht, hlayout, _⟩ := canonicalJson_layout.1 astral _ h
  exact utf8_injective ht ▸ hlayout

end Corrlog.Rfc8785
