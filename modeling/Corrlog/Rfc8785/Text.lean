import Corrlog.Core.Canonical

/-!
# RFC 8785

The text RFC 8785 gives a value whose numbers are floats, as a relation that
follows the sections of the RFC: which escapes a string has, how a number is
spelled, and that the members of an object are in the order of the UTF-16 code
units of their names.  How to sort is not part of it.

The core's renderer gives this text to the values that have one, and no text to
the others (`text_iff_jcsRender`), so it is an implementation
(`implements_canonicalJson`).
-/

namespace Corrlog.Rfc8785

open Python

/-! ## The RFC -/

/-- A character within a string (3.2.2.2). -/
def escape (c : Char) : List Char :=
  if c.toNat = 0x08 then ['\\', 'b']
  else if c.toNat = 0x09 then ['\\', 't']
  else if c.toNat = 0x0A then ['\\', 'n']
  else if c.toNat = 0x0C then ['\\', 'f']
  else if c.toNat = 0x0D then ['\\', 'r']
  else if c.toNat < 0x20 then '\\' :: 'u' :: hexText c.toNat
  else if c = '\\' then ['\\', '\\']
  else if c = '"' then ['\\', '"']
  else [c]

/-- A string in double quotes (3.2.2.2). -/
def quoted (cs : List Char) : List Char := '"' :: (cs.flatMap escape ++ ['"'])

/-- The UTF-16 code units of a name (3.2.3). -/
def codeUnits (cs : List Char) : List ℕ := (ofChars cs).flatMap utf16Units

/-- A member, from its name and the text of its value. -/
abbrev Member := List Char × List Char

/-- A member: its key, a colon and its value. -/
def Member.text (m : Member) : List Char := quoted m.1 ++ ':' :: m.2

/-- The members of an object, in their order. -/
def objectText (ms : List Member) : List Char := '{' :: (join [','] (ms.map Member.text) ++ ['}'])

/-- The names are in order (3.2.3). -/
def Ordered (ms : List Member) : Prop :=
  ms.Pairwise fun m m' => List.Lex (· < ·) (codeUnits m.1) (codeUnits m'.1)

mutual

/-- The text of a value.  Numbers are spelled as in ECMAScript (3.2.2.3), and a
string with a lone surrogate, a name that is no string, a number that is not
finite and a value of another type have none. -/
def Text : PyValue → List Char → Prop
  | .none, t => t = nullText
  | .bool b, t => t = boolText b
  | .float x, t => ∃ neg m, x = .finite neg m ∧ t = (esNumber neg m.val).text
  | .str s, t => ∃ cs, s = ofChars cs ∧ t = quoted cs
  | .list xs, t => ∃ ts, TextList xs ts ∧ t = '[' :: (join [','] ts ++ [']'])
  | .tuple xs, t => ∃ ts, TextList xs ts ∧ t = '[' :: (join [','] ts ++ [']'])
  | .dict items, t => ∃ ms ms', TextItems items ms ∧ ms'.Perm ms ∧ Ordered ms' ∧ t = objectText ms'
  | _, _ => False

/-- The texts of the elements of a list. -/
def TextList : List PyValue → List (List Char) → Prop
  | [], ts => ts = []
  | x :: xs, ts => ∃ u us, ts = u :: us ∧ Text x u ∧ TextList xs us

/-- The texts of the members of a dict, before they are sorted. -/
def TextItems : Items → List Member → Prop
  | [], ms => ms = []
  | (.str k, v) :: items, ms =>
      ∃ cs u ms', ms = (cs, u) :: ms' ∧ k = ofChars cs ∧ Text v u ∧ TextItems items ms'
  | _ :: _, _ => False

end

mutual

/-- No number in the value is an `int`. -/
def allFloats : PyValue → Bool
  | .int _ => false
  | .list xs => allFloatsList xs
  | .tuple xs => allFloatsList xs
  | .dict items => allFloatsItems items
  | _ => true

/-- `allFloats` of every element. -/
def allFloatsList : List PyValue → Bool
  | [] => true
  | x :: xs => allFloats x && allFloatsList xs

/-- `allFloats` of every value. -/
def allFloatsItems : Items → Bool
  | [] => true
  | (_, v) :: items => allFloats v && allFloatsItems items

end

theorem allFloatsList_iff (xs : List PyValue) :
    allFloatsList xs = true ↔ ∀ x ∈ xs, allFloats x = true := by
  induction xs with
  | nil => simp [allFloatsList]
  | cons x xs ih => simp [allFloatsList, ih]

theorem allFloatsItems_iff (items : Items) :
    allFloatsItems items = true ↔ ∀ kv ∈ items, allFloats kv.2 = true := by
  induction items with
  | nil => simp [allFloatsItems]
  | cons kv items ih => simp [allFloatsItems, ih]

/-- `dumps` gives the text of RFC 8785 to the values with floats only that have
one, and raises for the others. -/
def Implements (dumps : PyValue → Except PyErr Bytes) : Prop :=
  ∀ v, v.WF → allFloats v = true → ∀ b, dumps v = .ok b ↔ ∃ t, Text v t ∧ utf8 t = b

/-! ## Strings -/

theorem jcsEscape_scalar (c : Char) : jcsEscape (.scalar c) = .ok (escape c) := by
  have hback : c = '\\' ↔ c.toNat = 0x5C := ⟨fun h => h ▸ rfl, fun h => Char.toNat_inj.mp h⟩
  have hquote : c = '"' ↔ c.toNat = 0x22 := ⟨fun h => h ▸ rfl, fun h => Char.toNat_inj.mp h⟩
  rw [jcsEscape, ord, escape]
  cases hl : jcsEscapes.lookup c.toNat with
  | some t =>
      obtain ⟨l₁, l₂, hl, _⟩ := List.lookup_eq_some_iff.mp hl
      have hmem : (c.toNat, t) ∈ jcsEscapes := hl ▸ List.mem_append_right _ List.mem_cons_self
      simp only [jcsEscapes, List.mem_cons, Prod.mk.injEq, List.not_mem_nil, or_false] at hmem
      rcases hmem with ⟨h, rfl⟩ | ⟨h, rfl⟩ | ⟨h, rfl⟩ | ⟨h, rfl⟩ | ⟨h, rfl⟩ | ⟨h, rfl⟩ |
        ⟨h, rfl⟩ <;>
        simp [hback, hquote, h]
  | none =>
      have hne := jcsEscapes_none hl
      simp only [List.mem_cons, List.not_mem_nil, or_false, not_or] at hne
      by_cases hlt : c.toNat < 0x20 <;> simp [hback, hquote, hne, hlt]

theorem jcsEscapeString_ofChars (cs : List Char) :
    jcsEscapeString (ofChars cs) = .ok (quoted cs) := by
  have hmap : (ofChars cs).mapM jcsEscape = .ok (cs.map escape) := by
    rw [mapM_eq_ok, ofChars, List.forall₂_map_left_iff, List.forall₂_map_right_iff,
      List.forall₂_same]
    exact fun c _ => jcsEscape_scalar c
  rw [jcsEscapeString, hmap, quoted, List.flatMap_def]
  rfl

theorem jcsEscapeString_iff {s : PyStr} {t : List Char} :
    jcsEscapeString s = .ok t ↔ ∃ cs, s = ofChars cs ∧ t = quoted cs := by
  constructor
  · intro h
    obtain ⟨cs, rfl⟩ := exists_chars_of_noSurrogates (noSurrogates_of_jcsEscapeString h)
    rw [jcsEscapeString_ofChars, Except.ok.injEq] at h
    exact ⟨cs, rfl, h.symm⟩
  · rintro ⟨cs, rfl, rfl⟩
    exact jcsEscapeString_ofChars cs

/-! ## The order of names -/

/-- Two code units are in the order of their bytes. -/
theorem unitBytes_lt {u v : ℕ} (hu : u < 0x10000) (hv : v < 0x10000) {p : Prop} :
    ((UInt8.ofNat (u / 256)).toNat < (UInt8.ofNat (v / 256)).toNat ∨
      UInt8.ofNat (u / 256) = UInt8.ofNat (v / 256) ∧
        ((UInt8.ofNat (u % 256)).toNat < (UInt8.ofNat (v % 256)).toNat ∨
          UInt8.ofNat (u % 256) = UInt8.ofNat (v % 256) ∧ p)) ↔ u < v ∨ u = v ∧ p := by
  have hbyte {n : ℕ} (hn : n < 256) : (UInt8.ofNat n).toNat = n := by
    rw [UInt8.toNat_ofNat', Nat.mod_eq_of_lt hn]
  rw [← UInt8.toNat_inj, ← UInt8.toNat_inj, hbyte (by omega), hbyte (by omega), hbyte (by omega),
    hbyte (by omega)]
  by_cases hp : p
  · simp only [hp, and_true]
    omega
  · simp only [hp, and_false, or_false]
    omega

/-- The order of the bytes of code units is the order of the code units. -/
theorem bytesLe_unitBytes : ∀ {us vs : List ℕ}, (∀ u ∈ us, u < 0x10000) →
    (∀ v ∈ vs, v < 0x10000) →
      (bytesLe (us.flatMap unitBytes) (vs.flatMap unitBytes) = true ↔
        List.Lex (· < ·) us vs ∨ us = vs)
  | [], [], _, _ => iff_of_true rfl (Or.inr rfl)
  | [], _ :: _, _, _ => iff_of_true rfl (Or.inl .nil)
  | _ :: _, [], _, _ => by simp [unitBytes, bytesLe]
  | u :: us, v :: vs, hu, hv => by
      obtain ⟨hu, hus⟩ := List.forall_mem_cons.mp hu
      obtain ⟨hv, hvs⟩ := List.forall_mem_cons.mp hv
      simp only [List.flatMap_cons, unitBytes, List.cons_append, List.nil_append, bytesLe_cons]
      rw [unitBytes_lt hu hv, bytesLe_unitBytes hus hvs, List.cons_lex_cons_iff, List.cons.injEq]
      tauto

theorem codeUnits_lt_of_bytesLe {cs ds : List Char} (hne : cs ≠ ds)
    (h : bytesLe (encodeUtf16be (ofChars cs)) (encodeUtf16be (ofChars ds)) = true) :
    List.Lex (· < ·) (codeUnits cs) (codeUnits ds) := by
  have hunits (cs : List Char) : ∀ u ∈ codeUnits cs, u < 0x10000 := by
    intro u hu
    obtain ⟨c, _, hc⟩ := List.mem_flatMap.mp hu
    exact utf16Units_lt c u hc
  refine ((bytesLe_unitBytes (hunits cs) (hunits ds)).mp h).resolve_right fun he => hne ?_
  exact ofChars_injective (flatMap_utf16Units_injective (noSurrogates_ofChars cs)
    (noSurrogates_ofChars ds) he)

/-- The members with their names as keys. -/
def keyed (ms : List Member) : List (PyStr × Member) := ms.map fun m => (ofChars m.1, m)

theorem map_snd_keyed (ms : List Member) : (keyed ms).map Prod.snd = ms := by
  rw [keyed, List.map_map]
  exact List.map_id _

/-- Sorting puts the members in order. -/
theorem exists_ordered {ms : List Member} (hnd : (ms.map Prod.fst).Nodup) :
    ∃ ms', ms'.Perm ms ∧ Ordered ms' ∧ sortMembers (keyed ms) = keyed ms' := by
  have hperm := sortMembers_perm (keyed ms)
  have hsort : sortMembers (keyed ms) = keyed ((sortMembers (keyed ms)).map Prod.snd) := by
    conv_rhs => rw [keyed, List.map_map]
    refine (List.map_id _).symm.trans (List.map_congr_left fun p hp => ?_)
    obtain ⟨m, _, rfl⟩ := List.mem_map.mp (hperm.mem_iff.mp hp)
    rfl
  have hperm' : ((sortMembers (keyed ms)).map Prod.snd).Perm ms := by
    have := hperm.map Prod.snd
    rwa [map_snd_keyed] at this
  refine ⟨_, hperm', ?_, hsort⟩
  -- sorted by the bytes of the names, and no name occurs twice
  have hle := pairwise_sortMembers (keyed ms)
  rw [hsort, keyed, List.pairwise_map] at hle
  have hne : ((sortMembers (keyed ms)).map Prod.snd).Pairwise fun m m' => m.1 ≠ m'.1 := by
    rw [← List.pairwise_map (f := Prod.fst)]
    exact (hperm'.map Prod.fst).nodup_iff.mpr hnd
  exact (hne.and hle).imp fun h => codeUnits_lt_of_bytesLe h.1 h.2

/-- There is one order. -/
theorem Ordered.eq_of_perm {ms ms' : List Member} (h : Ordered ms) (h' : Ordered ms')
    (hp : ms.Perm ms') : ms = ms' := by
  refine List.Perm.eq_of_pairwise (fun m m' _ _ hlt hgt => ?_) h h' hp
  exact absurd hgt (List.lex_asymm Nat.lt_asymm hlt)

/-! ## The renderer -/

theorem jcsRender_dict_of_members {items : Items} {ms ms' : List Member}
    (h : jcsRenderItems items = ms.map fun m => (.str (ofChars m.1), .ok m.2))
    (hsort : sortMembers (keyed ms) = keyed ms') :
    jcsRender (.dict items) = .ok (objectText ms') := by
  have hitems : jcsRenderItems items =
      ((keyed ms).map fun kv => (kv.1, (Except.ok kv.2.2 : Except PyErr (List Char)))).map
        fun kv => (PyKey.str kv.1, kv.2) := by
    rw [h, keyed, List.map_map, List.map_map]
    rfl
  have hout : (((keyed ms').map fun kv => (kv.1, (Except.ok kv.2.2 : Except PyErr (List Char)))).map
      fun kv => (PyKey.str kv.1, kv.2)).mapM jcsMember = .ok (ms'.map Member.text) := by
    rw [mapM_eq_ok, keyed, List.map_map, List.map_map, List.forall₂_map_left_iff,
      List.forall₂_map_right_iff, List.forall₂_same]
    intro m _
    show jcsMember (.str (ofChars m.1), .ok m.2) = _
    rw [jcsMember]
    dsimp only
    rw [jcsEscapeString_ofChars]
    rfl
  rw [jcsRender, hitems, jcsSorted_str,
    sortMembers_map (fun kv : PyStr × Member => (Except.ok kv.2.2 : Except PyErr (List Char))),
    hsort]
  exact bind_eq_ok.mpr ⟨_, rfl, bind_eq_ok.mpr ⟨_, hout, rfl⟩⟩

theorem textList_iff {xs : List PyValue} {ts : List (List Char)}
    (ih : ∀ x ∈ xs, ∀ t, Text x t ↔ jcsRender x = .ok t) :
    TextList xs ts ↔ jcsRenderList xs = .ok ts := by
  induction xs generalizing ts with
  | nil => rw [TextList, jcsRenderList, Except.ok.injEq, eq_comm]
  | cons x xs ihs =>
      obtain ⟨ihx, ih⟩ := List.forall_mem_cons.mp ih
      rw [TextList, jcsRenderList]
      constructor
      · rintro ⟨u, us, rfl, hu, hus⟩
        exact bind_eq_ok.mpr ⟨u, (ihx u).mp hu, bind_eq_ok.mpr ⟨us, (ihs ih).mp hus, rfl⟩⟩
      · intro h
        obtain ⟨u, hu, h⟩ := bind_eq_ok.mp h
        obtain ⟨us, hus, h⟩ := bind_eq_ok.mp h
        cases h
        exact ⟨u, us, rfl, (ihx u).mpr hu, (ihs ih).mpr hus⟩

theorem textItems_iff {items : Items} {ms : List Member}
    (ih : ∀ kv ∈ items, ∀ t, Text kv.2 t ↔ jcsRender kv.2 = .ok t) :
    TextItems items ms ↔
      jcsRenderItems items = ms.map fun m => (.str (ofChars m.1), .ok m.2) := by
  induction items generalizing ms with
  | nil => exact ⟨fun h => h ▸ rfl, fun h => List.map_eq_nil_iff.mp h.symm⟩
  | cons kv items ihs =>
      obtain ⟨k, v⟩ := kv
      obtain ⟨ihv, iht⟩ := List.forall_mem_cons.mp ih
      rw [jcsRenderItems]
      constructor
      · intro h
        cases k with
        | str k =>
            obtain ⟨cs, u, ms', rfl, rfl, hu, hms⟩ := h
            rw [List.map_cons, (ihv u).mp hu, (ihs iht).mp hms]
        | _ => exact h.elim
      · intro h
        cases ms with
        | nil => cases h
        | cons m ms =>
            rw [List.map_cons, List.cons.injEq, Prod.mk.injEq] at h
            obtain ⟨⟨rfl, hu⟩, hms⟩ := h
            exact ⟨m.1, m.2, ms, rfl, rfl, (ihv m.2).mpr hu, (ihs iht).mpr hms⟩

/-- The members of a dict that is rendered. -/
theorem exists_members {items : Items} {t : List Char} (hwf : (PyValue.dict items).WF)
    (h : jcsRender (.dict items) = .ok t) :
    ∃ ms : List Member, jcsRenderItems items = ms.map fun m => (.str (ofChars m.1), .ok m.2) := by
  have hj := jsonAble_of_jcsRender h
  clear h
  rw [PyValue.wf_dict] at hwf
  replace hwf := hwf.2
  rw [PyValue.jsonAble_dict] at hj
  induction items with
  | nil => exact ⟨[], rfl⟩
  | cons kv items ih =>
      obtain ⟨hkv, hj⟩ := List.forall_mem_cons.mp hj
      obtain ⟨hw, hwf⟩ := List.forall_mem_cons.mp hwf
      obtain ⟨ms, hms⟩ := ih hj hwf
      obtain ⟨k, v⟩ := kv
      obtain ⟨u, hu, _⟩ := reads_jcsRender Decoder.default_plain hw hkv.2
      cases k with
      | str k =>
          obtain ⟨cs, rfl⟩ := exists_chars_of_noSurrogates hkv.1
          exact ⟨(cs, u) :: ms, by rw [jcsRenderItems, hms, hu, List.map_cons]⟩
      | _ => exact hkv.1.elim

/-- The names of the members of a dict are distinct. -/
theorem nodup_names {items : Items} {ms : List Member} (hnd : (items.map Prod.fst).Nodup)
    (h : jcsRenderItems items = ms.map fun m => (.str (ofChars m.1), .ok m.2)) :
    (ms.map Prod.fst).Nodup := by
  have hkeys := congrArg (List.map Prod.fst) h
  rw [jcsRenderItems_eq, List.map_map, List.map_map] at hkeys
  have hnd' : (ms.map fun m => PyKey.str (ofChars m.1)).Nodup :=
    (show items.map Prod.fst = _ from hkeys) ▸ hnd
  refine List.Nodup.of_map (fun cs => PyKey.str (ofChars cs)) ?_
  rw [List.map_map]
  exact hnd'

/-- The renderer gives the text of the RFC, and to other values none. -/
theorem text_iff_jcsRender {v : PyValue} (hwf : v.WF) (hf : allFloats v = true) {t : List Char} :
    Text v t ↔ jcsRender v = .ok t := by
  induction v generalizing t with
  | none => rw [Text, jcsRender, Except.ok.injEq, eq_comm]
  | bool b => rw [Text, jcsRender, Except.ok.injEq, eq_comm]
  | int n => cases hf
  | float x =>
      rw [Text, jcsRender, jcsNumber]
      cases x with
      | finite neg m =>
          rw [jcsDouble_finite, Except.ok.injEq]
          constructor
          · rintro ⟨_, _, he, rfl⟩
            cases he
            rfl
          · rintro rfl
            exact ⟨neg, m, rfl, rfl⟩
      | inf neg => exact iff_of_false (by rintro ⟨_, _, h, _⟩; cases h) (fun h => by cases h)
      | nan => exact iff_of_false (by rintro ⟨_, _, h, _⟩; cases h) (fun h => by cases h)
  | str s => rw [Text, jcsRender, jcsEscapeString_iff]
  | list xs ih =>
      have hlist {ts : List (List Char)} : TextList xs ts ↔ jcsRenderList xs = .ok ts :=
        textList_iff fun x hx t =>
          ih x hx ((PyValue.wf_list xs).mp hwf x hx) ((allFloatsList_iff xs).mp hf x hx)
      rw [Text, jcsRender, map_eq_ok]
      simp only [hlist, eq_comm]
  | tuple xs ih =>
      have hlist {ts : List (List Char)} : TextList xs ts ↔ jcsRenderList xs = .ok ts :=
        textList_iff fun x hx t =>
          ih x hx ((PyValue.wf_tuple xs).mp hwf x hx) ((allFloatsList_iff xs).mp hf x hx)
      rw [Text, jcsRender, map_eq_ok]
      simp only [hlist, eq_comm]
  | dict items ih =>
      obtain ⟨hnd, hwfs⟩ := (PyValue.wf_dict items).mp hwf
      have hitems {ms : List Member} : TextItems items ms ↔ _ := textItems_iff fun kv hkv t =>
        ih kv hkv (hwfs kv hkv) ((allFloatsItems_iff items).mp hf kv hkv)
      rw [Text]
      constructor
      · rintro ⟨ms, ms', hms, hp, hord, rfl⟩
        rw [hitems] at hms
        obtain ⟨ms'', hp', hord', hsort⟩ := exists_ordered (nodup_names hnd hms)
        rw [hord.eq_of_perm hord' (hp.trans hp'.symm)]
        exact jcsRender_dict_of_members hms hsort
      · intro h
        obtain ⟨ms, hms⟩ := exists_members hwf h
        obtain ⟨ms', hp, hord, hsort⟩ := exists_ordered (nodup_names hnd hms)
        rw [jcsRender_dict_of_members hms hsort, Except.ok.injEq] at h
        exact ⟨ms, ms', hitems.mpr hms, hp, hord, h.symm⟩
  | other o => exact ⟨fun h => h.elim, fun h => by rw [jcsRender] at h; cases h⟩

/-- The core implements the RFC. -/
theorem implements_canonicalJson : Implements canonicalJson := fun v hwf hf b => by
  rw [canonicalJson_ok_iff]
  simp only [text_iff_jcsRender hwf hf]

end Corrlog.Rfc8785
