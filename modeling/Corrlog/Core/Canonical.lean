import Corrlog.Core.Number
import Corrlog.Python.Sort

/-!
# Canonical JSON

`canonical_json` after RFC 8785: members sorted by their UTF-16 code units, the
shortest escapes, ECMAScript numbers, no white space, UTF-8.

The canonical text of a value is read back as the same value
(`reads_jcsRender`), and it exists exactly for the values with a JSON text
(`jsonAble_iff_canonicalJson`).  Hence it is a complete invariant of the value
in the binary64 domain (`canonicalJson_complete`): equal bytes are read back as one
value, and conversely the sorted members do not depend on the order of a dict.
-/

namespace Corrlog

open Python
open Binary64 (ofInt)

/-! ## Strings -/

/-- `_JCS_ESCAPES`. -/
def jcsEscapes : List (ℕ × List Char) :=
  [(0x08, ['\\', 'b']), (0x09, ['\\', 't']), (0x0A, ['\\', 'n']), (0x0C, ['\\', 'f']),
    (0x0D, ['\\', 'r']), (0x22, ['\\', '"']), (0x5C, ['\\', '\\'])]

/-- One character of `_jcs_escape_string`. -/
def jcsEscape (c : CodePoint) : Except PyErr (List Char) :=
  match jcsEscapes.lookup (ord c) with
  | some t => .ok t
  | none =>
      if ord c < 0x20 then .ok ('\\' :: 'u' :: hexText (ord c))
      else
        match c with
        | .surrogate _ =>
            raise .ValueError ("cannot canonicalize a lone surrogate; RFC 8785 3.2.2.2 " ++
              "requires a compliant implementation to terminate with an error")
        | .scalar c => .ok [c]

/-- `_jcs_escape_string`. -/
def jcsEscapeString (s : PyStr) : Except PyErr (List Char) :=
  (s.mapM jcsEscape).map fun out => '"' :: (out.flatten ++ ['"'])

/-! ## Numbers -/

/-- `_jcs_number`. -/
def jcsNumber : PyValue → Except PyErr (List Char)
  | .bool _ => raise .TypeError "bool is not a JSON number"
  | .int n => jcsInteger n
  | .float x => jcsDouble x
  | _ => builtinError .TypeError

mutual

/-- `_check_application_numbers`. -/
def checkApplicationNumbers : PyValue → Except PyErr Unit
  | .int n =>
      if (ofInt n).isFinite then
        if PyValue.intEqFloat n (ofInt n) then .ok ()
        else raise .ValueError "inexact application integer must be represented as a string"
      else raise .ValueError "application integer must be represented as a string"
  | .dict items => checkApplicationItems items
  | .list xs => checkApplicationList xs
  | .tuple xs => checkApplicationList xs
  | _ => .ok ()

/-- `_check_application_numbers` of the elements of a list. -/
def checkApplicationList : List PyValue → Except PyErr Unit
  | [] => .ok ()
  | x :: xs => do
      checkApplicationNumbers x
      checkApplicationList xs

/-- `_check_application_numbers` of the values of a dict. -/
def checkApplicationItems : Items → Except PyErr Unit
  | [] => .ok ()
  | (_, v) :: items => do
      checkApplicationNumbers v
      checkApplicationItems items

end

/-! ## Values -/

/-- `_jcs_sort_key`: only a `str` has `encode`. -/
def jcsSortKey : PyKey → Except PyErr Bytes
  | .str k => .ok (encodeUtf16be k)
  | _ => builtinError .AttributeError

/-- `sorted(obj, key=_jcs_sort_key)`. -/
def jcsSorted {α : Type} (items : List (PyKey × α)) : Except PyErr (List (PyKey × α)) := do
  let keyed ← items.mapM fun kv => (jcsSortKey kv.1).map (·, kv)
  return (sortedBy bytesLe keyed).map Prod.snd

/-- One member, from its key and what rendering its value gives. -/
def jcsMember (kv : PyKey × Except PyErr (List Char)) : Except PyErr (List Char) :=
  match kv.1 with
  | .str k => do
      let k ← jcsEscapeString k
      let t ← kv.2
      return k ++ ':' :: t
  | _ => raise .TypeError "JSON object keys must be strings"

mutual

/-- `_jcs_render`. -/
def jcsRender : PyValue → Except PyErr (List Char)
  | .none => .ok nullText
  | .bool b => .ok (boolText b)
  | .str s => jcsEscapeString s
  | .int n => jcsNumber (.int n)
  | .float x => jcsNumber (.float x)
  | .dict items => do
      let members ← jcsSorted (jcsRenderItems items)
      let out ← members.mapM jcsMember
      return '{' :: (join [','] out ++ ['}'])
  | .list xs => (jcsRenderList xs).map fun out => '[' :: (join [','] out ++ [']'])
  | .tuple xs => (jcsRenderList xs).map fun out => '[' :: (join [','] out ++ [']'])
  | .other o =>
      .error ⟨.TypeError, lit "Object of type " ++ o.typeName ++ lit " is not JSON serializable"⟩

/-- `_jcs_render` of the elements of a list. -/
def jcsRenderList : List PyValue → Except PyErr (List (List Char))
  | [] => .ok []
  | x :: xs => do
      let t ← jcsRender x
      let ts ← jcsRenderList xs
      return t :: ts

/-- The members before sorting, each with what rendering its value gives. -/
def jcsRenderItems : Items → List (PyKey × Except PyErr (List Char))
  | [] => []
  | (k, v) :: items => (k, jcsRender v) :: jcsRenderItems items

end

/-- `canonical_json`. -/
def canonicalJson (v : PyValue) : Except PyErr Bytes := (jcsRender v).map utf8

/-- The values are rendered before the keys are sorted. -/
theorem jcsRenderItems_eq (items : Items) :
    jcsRenderItems items = items.map fun kv => (kv.1, jcsRender kv.2) := by
  induction items with
  | nil => rw [jcsRenderItems, List.map_nil]
  | cons kv items ih => rw [jcsRenderItems, ih, List.map_cons]

/-! ## Strings are read back -/

/-- The unit an escaped character spells. -/
def jcsUnit (c : CodePoint) : StrUnit :=
  if ord c < 0x20 ∧ ord c ∉ [8, 9, 10, 12, 13] then .escape (ord c) else .char (Char.ofNat (ord c))

/-- The escapes of the table are read back. -/
theorem jcsEscapes_spells {o : ℕ} {t : List Char} (h : jcsEscapes.lookup o = some t) :
    Spells t [.char (Char.ofNat o)] ∧ (o < 0x20 → o ∈ [8, 9, 10, 12, 13]) := by
  have hmem : (o, t) ∈ jcsEscapes := by
    obtain ⟨l₁, l₂, hl, _⟩ := List.lookup_eq_some_iff.mp h
    rw [hl]
    exact List.mem_append_right _ List.mem_cons_self
  simp only [jcsEscapes, List.mem_cons, Prod.mk.injEq, List.not_mem_nil, or_false] at hmem
  rcases hmem with ⟨rfl, rfl⟩ | ⟨rfl, rfl⟩ | ⟨rfl, rfl⟩ | ⟨rfl, rfl⟩ | ⟨rfl, rfl⟩ | ⟨rfl, rfl⟩ |
    ⟨rfl, rfl⟩
  all_goals exact ⟨Spells.short (by decide) rfl, by decide⟩

theorem jcsEscapes_none {o : ℕ} (h : jcsEscapes.lookup o = none) :
    o ∉ [8, 9, 10, 12, 13, 0x22, 0x5C] := by
  rintro ho
  simp only [List.mem_cons, List.not_mem_nil, or_false] at ho
  rcases ho with rfl | rfl | rfl | rfl | rfl | rfl | rfl <;> cases h

/-- Every character but a surrogate is read back. -/
theorem jcsEscape_spells {c : CodePoint} (hc : c.isScalar = true) :
    ∃ t, jcsEscape c = .ok t ∧ Spells t [jcsUnit c] := by
  cases c with
  | surrogate s => cases hc
  | scalar c =>
      rw [jcsEscape, jcsUnit]
      cases hl : jcsEscapes.lookup (ord (.scalar c)) with
      | some t =>
          obtain ⟨hs, ho⟩ := jcsEscapes_spells hl
          exact ⟨t, rfl, by rw [if_neg (fun h => h.2 (ho h.1))]; exact hs⟩
      | none =>
          have hne := jcsEscapes_none hl
          simp only [List.mem_cons, List.not_mem_nil, or_false] at hne
          by_cases hlt : ord (.scalar c) < 0x20
          · refine ⟨_, if_pos hlt, ?_⟩
            rw [if_pos ⟨hlt, by simp only [List.mem_cons, List.not_mem_nil, or_false]; tauto⟩]
            exact Spells.hexText (by omega)
          · refine ⟨[c], if_neg hlt, ?_⟩
            rw [if_neg (fun h => hlt h.1), ord, Char.ofNat_toNat]
            rw [ord] at hne hlt
            refine Spells.char ?_ ?_ hlt
            · rintro rfl; exact hne (by decide)
            · rintro rfl; exact hne (by decide)

/-- A surrogate is refused. -/
theorem jcsEscape_surrogate (s : Fin 2048) {t : List Char} :
    jcsEscape (.surrogate s) ≠ .ok t := by
  have hord : 0xD800 ≤ ord (.surrogate s) := Nat.le_add_right _ _
  have hl : jcsEscapes.lookup (ord (.surrogate s)) = none := by
    rw [List.lookup_eq_none_iff]
    intro p hp
    simp only [jcsEscapes, List.mem_cons, List.not_mem_nil, or_false] at hp
    rcases hp with rfl | rfl | rfl | rfl | rfl | rfl | rfl <;>
      (rw [bne_iff_ne]; dsimp only; omega)
  rw [jcsEscape, hl]
  dsimp only
  rw [if_neg (by omega)]
  exact fun h => nomatch h

theorem joinPairs_jcsUnit : ∀ {s : PyStr}, noSurrogates s = true → joinPairs (s.map jcsUnit) = s
  | [], _ => rfl
  | c :: s, h => by
      rw [noSurrogates_cons, Bool.and_eq_true] at h
      have ih := joinPairs_jcsUnit h.2
      rw [List.map_cons, jcsUnit]
      split
      next hc =>
        have hhigh : isHigh (ord c) = false := by
          rw [isHigh, decide_eq_false_iff_not]
          omega
        rw [joinPairs_escape (Or.inl hhigh), ih, chr_ord]
      next hc =>
        cases c with
        | scalar c => rw [joinPairs, ih, ord, Char.ofNat_toNat]
        | surrogate s' => cases h.1

/-- A string without surrogates is read back. -/
theorem jcsEscapeString_reads {s : PyStr} (h : noSurrogates s = true) :
    ∃ t, jcsEscapeString s = .ok t ∧ ReadsString t s := by
  have hout : ∀ {s : PyStr}, noSurrogates s = true →
      ∃ out, s.mapM jcsEscape = .ok out ∧ Spells out.flatten (s.map jcsUnit) := by
    intro s h
    induction s with
    | nil => exact ⟨[], rfl, Spells.nil⟩
    | cons c s ih =>
        rw [noSurrogates_cons, Bool.and_eq_true] at h
        obtain ⟨t, ht, hs⟩ := jcsEscape_spells h.1
        obtain ⟨out, hout, hss⟩ := ih h.2
        exact ⟨t :: out, by rw [List.mapM_cons, ht, hout]; rfl, hs.append hss⟩
  obtain ⟨out, hmap, hs⟩ := hout h
  exact ⟨_, by rw [jcsEscapeString, hmap]; rfl, hs.readsString (joinPairs_jcsUnit h)⟩

/-- Only a string without surrogates has a text. -/
theorem noSurrogates_of_jcsEscapeString {s : PyStr} {t : List Char}
    (h : jcsEscapeString s = .ok t) : noSurrogates s = true := by
  have hout : ∀ {s : PyStr} {out}, s.mapM jcsEscape = .ok out → noSurrogates s = true := by
    intro s
    induction s with
    | nil => intro _ _; rfl
    | cons c s ih =>
        intro out h
        rw [List.mapM_cons] at h
        cases hc : jcsEscape c with
        | error e => rw [hc] at h; cases h
        | ok t =>
            cases hs : s.mapM jcsEscape with
            | error e => rw [hc, hs] at h; cases h
            | ok ts =>
                rw [noSurrogates_cons, ih hs, Bool.and_true]
                cases c with
                | scalar c => rfl
                | surrogate s' => exact absurd hc (jcsEscape_surrogate s')
  rw [jcsEscapeString] at h
  cases hs : s.mapM jcsEscape with
  | error e => rw [hs] at h; cases h
  | ok out => exact hout hs

/-! ## Members in canonical order -/

section

variable {α β : Type}

/-- The members of a dict with string keys, sorted by UTF-16 code units. -/
def sortMembers (kvs : List (PyStr × α)) : List (PyStr × α) :=
  (sortedBy bytesLe (kvs.map fun kv => (encodeUtf16be kv.1, kv))).map Prod.snd

/-- Sorting loses and adds no member. -/
theorem sortMembers_perm (kvs : List (PyStr × α)) : (sortMembers kvs).Perm kvs := by
  have h := (sortedBy_perm bytesLe (kvs.map fun kv => (encodeUtf16be kv.1, kv))).map Prod.snd
  rw [List.map_map] at h
  exact h.trans (List.Perm.of_eq (List.map_id _))

/-- The keys are in the order of UTF-16. -/
theorem pairwise_sortMembers (kvs : List (PyStr × α)) :
    (sortMembers kvs).Pairwise fun a b =>
      bytesLe (encodeUtf16be a.1) (encodeUtf16be b.1) = true := by
  rw [sortMembers, List.pairwise_map]
  refine (pairwise_sortedBy bytesLe_total bytesLe_trans _).imp_of_mem fun {a b} ha hb h => ?_
  obtain ⟨_, _, rfl⟩ := List.mem_map.mp ((sortedBy_perm bytesLe _).mem_iff.mp ha)
  obtain ⟨_, _, rfl⟩ := List.mem_map.mp ((sortedBy_perm bytesLe _).mem_iff.mp hb)
  exact h

theorem sortMembers_map (f : PyStr × α → β) (kvs : List (PyStr × α)) :
    sortMembers (kvs.map fun kv => (kv.1, f kv)) =
      (sortMembers kvs).map fun kv => (kv.1, f kv) := by
  have h := sortedBy_map bytesLe (fun kv : PyStr × α => (kv.1, f kv))
    (kvs.map fun kv => (encodeUtf16be kv.1, kv))
  rw [List.map_map] at h
  rw [sortMembers, List.map_map, sortMembers, List.map_map]
  exact (congrArg (List.map Prod.snd) h).trans (by rw [List.map_map]; rfl)

/-- The order a dict was filled in does not matter. -/
theorem sortMembers_eq_of_perm {kvs kvs' : List (PyStr × α)}
    (hs : ∀ kv ∈ kvs, noSurrogates kv.1 = true) (hnd : (kvs.map Prod.fst).Nodup)
    (hp : kvs.Perm kvs') : sortMembers kvs = sortMembers kvs' := by
  refine congrArg (List.map Prod.snd)
    (sortedBy_eq_of_perm bytesLe_total bytesLe_trans bytesLe_antisymm ?_ (hp.map _))
  rw [List.map_map]
  have hmap : kvs.map (Prod.fst ∘ fun kv => (encodeUtf16be kv.1, kv)) =
      (kvs.map Prod.fst).map encodeUtf16be := by rw [List.map_map]; rfl
  rw [hmap]
  refine hnd.map_on fun k hk k' hk' he => ?_
  obtain ⟨kv, hkv, rfl⟩ := List.mem_map.mp hk
  obtain ⟨kv', hkv', rfl⟩ := List.mem_map.mp hk'
  exact encodeUtf16be_injective (hs kv hkv) (hs kv' hkv') he

theorem jcsSorted_str (kvs : List (PyStr × α)) :
    jcsSorted (kvs.map fun kv => (PyKey.str kv.1, kv.2)) =
      .ok ((sortMembers kvs).map fun kv => (PyKey.str kv.1, kv.2)) := by
  have hkeyed : (kvs.map fun kv => (PyKey.str kv.1, kv.2)).mapM
      (fun kv => (jcsSortKey kv.1).map (·, kv)) =
        .ok (kvs.map fun kv => (encodeUtf16be kv.1, (PyKey.str kv.1, kv.2))) := by
    rw [mapM_eq_ok, List.forall₂_map_left_iff, List.forall₂_map_right_iff, List.forall₂_same]
    exact fun kv _ => rfl
  have hmap := sortedBy_map bytesLe (fun kv : PyStr × α => (PyKey.str kv.1, kv.2))
    (kvs.map fun kv => (encodeUtf16be kv.1, kv))
  rw [List.map_map] at hmap
  rw [jcsSorted, hkeyed, sortMembers, List.map_map]
  exact congrArg Except.ok ((congrArg (List.map Prod.snd) hmap).trans (by rw [List.map_map]; rfl))

end

/-- A dict with string keys: its rendered members in order. -/
theorem jcsRender_strItems (kvs : List (PyStr × PyValue)) :
    jcsRender (.dict (strItems kvs)) = do
      let out ← (sortMembers (kvs.map fun kv => (kv.1, jcsRender kv.2))).mapM
        fun kv => jcsMember (.str kv.1, kv.2)
      return '{' :: (join [','] out ++ ['}']) := by
  have hitems : jcsRenderItems (strItems kvs) =
      (kvs.map fun kv => (kv.1, jcsRender kv.2)).map fun kv => (PyKey.str kv.1, kv.2) := by
    rw [jcsRenderItems_eq, strItems, List.map_map, List.map_map]
    rfl
  have hmap : ∀ l : List (PyStr × Except PyErr (List Char)),
      (l.map fun kv => (PyKey.str kv.1, kv.2)).mapM jcsMember =
        l.mapM fun kv => jcsMember (.str kv.1, kv.2) := fun l => by rw [List.mapM_map]; rfl
  rw [jcsRender, hitems, jcsSorted_str, ← hmap]
  rfl

/-- The same, with the members sorted before their values are rendered. -/
theorem jcsRender_sortMembers (kvs : List (PyStr × PyValue)) :
    jcsRender (.dict (strItems kvs)) = do
      let out ← (sortMembers kvs).mapM fun kv => jcsMember (.str kv.1, jcsRender kv.2)
      return '{' :: (join [','] out ++ ['}']) := by
  rw [jcsRender_strItems, sortMembers_map (fun kv => jcsRender kv.2), List.mapM_map]
  rfl

/-! ## The canonical text is read back -/

section

variable {D : Decoder}

/-- A text that is read back as the value `v`, in the binary64 domain. -/
def ReadsSame (D : Decoder) (t : List Char) (v : PyValue) : Prop :=
  ∃ w, Reads D t w ∧ PyValue.Same v w ∧ w.WF

/-- The texts of the elements are read as the same values. -/
theorem jcsRenderList_reads {xs : List PyValue}
    (ih : ∀ x ∈ xs, ∃ t, jcsRender x = .ok t ∧ ReadsSame D t x) :
    ∃ ts ws, jcsRenderList xs = .ok ts ∧ List.Forall₂ (Reads D) ts ws ∧
      List.Forall₂ PyValue.Same xs ws ∧ ∀ w ∈ ws, PyValue.WF w := by
  induction xs with
  | nil =>
      exact ⟨[], [], by rw [jcsRenderList], .nil, .nil, fun _ h => absurd h List.not_mem_nil⟩
  | cons x xs ih' =>
      obtain ⟨t, ht, w, hr, hs, hw⟩ := ih x List.mem_cons_self
      obtain ⟨ts, ws, hts, hrs, hss, hws⟩ := ih' fun y hy => ih y (List.mem_cons_of_mem _ hy)
      exact ⟨t :: ts, w :: ws, by rw [jcsRenderList, ht, hts]; rfl, .cons hr hrs, .cons hs hss,
        List.forall_mem_cons.mpr ⟨hw, hws⟩⟩

/-- The texts of the members are read as the same members. -/
theorem jcsMembers_reads {kvs : List (PyStr × PyValue)}
    (hk : ∀ kv ∈ kvs, noSurrogates kv.1 = true)
    (ih : ∀ kv ∈ kvs, ∃ t, jcsRender kv.2 = .ok t ∧ ReadsSame D t kv.2) :
    ∃ ts kws, kvs.mapM (fun kv => jcsMember (.str kv.1, jcsRender kv.2)) = .ok ts ∧
      List.Forall₂ (ReadsMember D []) ts kws ∧
      List.Forall₂ (fun kv kw => kv.1 = kw.1 ∧ PyValue.Same kv.2 kw.2 ∧ kw.2.WF) kvs kws := by
  induction kvs with
  | nil => exact ⟨[], [], rfl, .nil, .nil⟩
  | cons kv kvs ih' =>
      obtain ⟨t, ht, w, hr, hs, hw⟩ := ih kv List.mem_cons_self
      obtain ⟨ts, kws, hts, hrs, hss⟩ := ih' (fun kv hkv => hk kv (List.mem_cons_of_mem _ hkv))
        fun kv hkv => ih kv (List.mem_cons_of_mem _ hkv)
      obtain ⟨k, hk', hstr⟩ := jcsEscapeString_reads (hk kv List.mem_cons_self)
      refine ⟨(k ++ ':' :: t) :: ts, (kv.1, w) :: kws, ?_, .cons ⟨k, t, rfl, hstr, hr⟩ hrs,
        .cons ⟨rfl, hs, hw⟩ hss⟩
      rw [List.mapM_cons, hts, jcsMember]
      dsimp only
      rw [hk', ht]
      rfl

/-- A finite number is read back as a number of its value. -/
theorem reads_jcsNumber {v : PyValue} {x : Binary64} (h : PyValue.num? v = some x) :
    ∃ t w, jcsNumber v = .ok t ∧ Reads D t w ∧ PyValue.num? w = some x := by
  cases v with
  | int n =>
      rw [PyValue.num?] at h
      split at h
      next hf =>
        cases h
        obtain ⟨t, w, ht, hr, hw⟩ := reads_jcsDouble (D := D) hf
        exact ⟨t, w, by rw [jcsNumber, jcsInteger, if_pos hf, ht], hr, hw⟩
      next => cases h
  | float y =>
      rw [PyValue.num?] at h
      split at h
      next hf =>
        cases h
        exact reads_jcsDouble hf
      next => cases h
  | none => cases h
  | bool b => cases h
  | str s => cases h
  | list xs => cases h
  | tuple xs => cases h
  | dict items => cases h
  | other o => cases h

/-- The canonical text of a value is read back as the same value. -/
theorem reads_jcsRender (hD : D.Plain) {v : PyValue} (hwf : v.WF) (hj : v.JsonAble) :
    ∃ t, jcsRender v = .ok t ∧ ReadsSame D t v := by
  induction v with
  | none => exact ⟨_, by rw [jcsRender], _, Reads.null, PyValue.same_refl hj, hwf⟩
  | bool b => exact ⟨_, by rw [jcsRender], _, Reads.bool b, PyValue.same_refl hj, hwf⟩
  | int n =>
      obtain ⟨t, w, ht, hr, hw⟩ := reads_jcsNumber (D := D) (v := .int n) (if_pos hj)
      exact ⟨t, by rw [jcsRender, ht], w, hr, PyValue.same_of_num (if_pos hj) hw,
        PyValue.wf_of_num hw⟩
  | float x =>
      obtain ⟨t, w, ht, hr, hw⟩ := reads_jcsNumber (D := D) (v := .float x) (if_pos hj)
      exact ⟨t, by rw [jcsRender, ht], w, hr, PyValue.same_of_num (if_pos hj) hw,
        PyValue.wf_of_num hw⟩
  | str s =>
      obtain ⟨t, ht, hr⟩ := jcsEscapeString_reads hj
      exact ⟨t, by rw [jcsRender, ht], _, Reads.str hr, PyValue.same_refl hj, hwf⟩
  | list xs ih =>
      rw [PyValue.wf_list] at hwf
      rw [PyValue.jsonAble_list] at hj
      obtain ⟨ts, ws, hts, hr, hs, hw⟩ :=
        jcsRenderList_reads fun x hx => ih x hx (hwf x hx) (hj x hx)
      exact ⟨_, by rw [jcsRender, hts]; rfl, .list ws,
        Reads.list isWs_nil hr,
        PyValue.same_of_seq rfl rfl hs, (PyValue.wf_list ws).mpr hw⟩
  | tuple xs ih =>
      rw [PyValue.wf_tuple] at hwf
      rw [PyValue.jsonAble_tuple] at hj
      obtain ⟨ts, ws, hts, hr, hs, hw⟩ :=
        jcsRenderList_reads fun x hx => ih x hx (hwf x hx) (hj x hx)
      exact ⟨_, by rw [jcsRender, hts]; rfl, .list ws,
        Reads.list isWs_nil hr,
        PyValue.same_of_seq rfl rfl hs, (PyValue.wf_list ws).mpr hw⟩
  | dict items ih =>
      obtain ⟨kvs, rfl, hkvs⟩ := PyValue.exists_strItems hj
      rw [PyValue.wf_dict, nodup_strItems] at hwf
      have hmem : ∀ kv ∈ kvs, (PyKey.str kv.1, kv.2) ∈ strItems kvs := fun kv hkv =>
        PyValue.mem_strItems.mpr hkv
      have hperm := sortMembers_perm kvs
      obtain ⟨ts, kws, hts, hr, hs⟩ := @jcsMembers_reads D (sortMembers kvs)
        (fun kv hkv => (hkvs kv (hperm.mem_iff.mp hkv)).1) fun kv hkv => by
          have hkv' := hperm.mem_iff.mp hkv
          exact ih _ (hmem kv hkv') (hwf.2 _ (hmem kv hkv')) (hkvs kv hkv').2
      have hkeys : kws.map Prod.fst = (sortMembers kvs).map Prod.fst := by
        refine (List.forall₂_eq_eq_eq ▸ ?_ : _ = _).symm
        rw [List.forall₂_map_left_iff, List.forall₂_map_right_iff]
        exact hs.imp fun _ _ h => h.1
      have hnd : (kws.map Prod.fst).Nodup := by
        rw [hkeys]
        exact (hperm.map Prod.fst).nodup_iff.mpr hwf.1
      refine ⟨_, by rw [jcsRender_sortMembers, hts]; rfl, .dict (strItems kws),
        Reads.dict isWs_nil isWs_nil hr (hD kws hnd),
        PyValue.same_strItems hperm (hs.imp fun _ _ h => ⟨h.1, h.2.1⟩), ?_⟩
      rw [PyValue.wf_dict, nodup_strItems]
      refine ⟨hnd, fun kw' hkw' => ?_⟩
      obtain ⟨kw, hkw, rfl⟩ := List.mem_map.mp hkw'
      obtain ⟨_, _, _, _, hw⟩ := PyValue.exists_left_of_forall₂ hs hkw
      exact hw
  | other o => exact absurd hj (PyValue.not_jsonAble_other o)

end

/-! ## What has a canonical text -/

theorem jcsRenderList_ok {xs : List PyValue} {ts : List (List Char)}
    (h : jcsRenderList xs = .ok ts) : ∀ x ∈ xs, ∃ t, jcsRender x = .ok t := by
  induction xs generalizing ts with
  | nil => exact fun _ hx => absurd hx List.not_mem_nil
  | cons x xs ih =>
      rw [jcsRenderList] at h
      obtain ⟨t, ht, h⟩ := bind_eq_ok.mp h
      obtain ⟨ts, hts, _⟩ := bind_eq_ok.mp h
      exact List.forall_mem_cons.mpr ⟨⟨t, ht⟩, ih hts⟩

/-- Only a dict with string keys can be sorted. -/
theorem keys_of_jcsSorted {α : Type} {items out : List (PyKey × α)}
    (h : jcsSorted items = .ok out) :
    ∀ kv ∈ items, ∃ k, kv.1 = PyKey.str k := by
  obtain ⟨keyed, hk, _⟩ := bind_eq_ok.mp h
  intro kv hkv
  obtain ⟨_, _, hm⟩ := PyValue.exists_right_of_forall₂ (mapM_eq_ok.mp hk) hkv
  obtain ⟨b, hb, _⟩ := map_eq_ok.mp hm
  cases hkey : kv.1 with
  | str k => exact ⟨k, rfl⟩
  | none => rw [hkey] at hb; cases hb
  | bool b => rw [hkey] at hb; cases hb
  | int n => rw [hkey] at hb; cases hb
  | float x => rw [hkey] at hb; cases hb
  | other o => rw [hkey] at hb; cases hb

/-- What can be rendered has a JSON text. -/
theorem jsonAble_of_jcsRender {v : PyValue} {t : List Char} (h : jcsRender v = .ok t) :
    v.JsonAble := by
  induction v generalizing t with
  | none => rfl
  | bool b => rfl
  | int n =>
      rw [jcsRender, jcsNumber, jcsInteger] at h
      split at h
      next hf => exact hf
      next => cases h
  | float x =>
      rw [jcsRender, jcsNumber] at h
      cases x with
      | finite neg m => rfl
      | inf neg => cases h
      | nan => cases h
  | str s =>
      rw [jcsRender] at h
      exact noSurrogates_of_jcsEscapeString h
  | list xs ih =>
      rw [jcsRender] at h
      obtain ⟨ts, hts, _⟩ := map_eq_ok.mp h
      rw [PyValue.jsonAble_list]
      intro x hx
      obtain ⟨t, ht⟩ := jcsRenderList_ok hts x hx
      exact ih x hx ht
  | tuple xs ih =>
      rw [jcsRender] at h
      obtain ⟨ts, hts, _⟩ := map_eq_ok.mp h
      rw [PyValue.jsonAble_tuple]
      intro x hx
      obtain ⟨t, ht⟩ := jcsRenderList_ok hts x hx
      exact ih x hx ht
  | dict items ih =>
      obtain ⟨kvs, rfl⟩ : ∃ kvs, items = strItems kvs := by
        rw [jcsRender] at h
        obtain ⟨members, hm, _⟩ := bind_eq_ok.mp h
        refine PyValue.exists_strItems_of_keys fun kv hkv => ?_
        refine keys_of_jcsSorted hm (kv.1, jcsRender kv.2) ?_
        rw [jcsRenderItems_eq]
        exact List.mem_map.mpr ⟨kv, hkv, rfl⟩
      rw [jcsRender_sortMembers] at h
      obtain ⟨out, hout, _⟩ := bind_eq_ok.mp h
      rw [PyValue.jsonAble_dict]
      intro kv' hkv'
      obtain ⟨kv, hkv, rfl⟩ := List.mem_map.mp hkv'
      obtain ⟨_, _, hm⟩ := PyValue.exists_right_of_forall₂ (mapM_eq_ok.mp hout)
        ((sortMembers_perm kvs).mem_iff.mpr hkv)
      rw [jcsMember] at hm
      obtain ⟨k, hk, hm⟩ := bind_eq_ok.mp hm
      obtain ⟨u, hu, _⟩ := bind_eq_ok.mp hm
      exact ⟨noSurrogates_of_jcsEscapeString hk, ih _ hkv' hu⟩
  | other o => rw [jcsRender] at h; cases h

/-! ## Equal values have one canonical text -/

/-- Both zeros are rendered alike. -/
theorem jcsDouble_normZero (x : Binary64) : jcsDouble x.normZero = jcsDouble x := by
  cases x with
  | finite neg m =>
      rw [Binary64.normZero]
      split
      next h => rw [jcsDouble, jcsDouble, if_pos h, if_pos h]
      next h => rfl
  | inf neg => rfl
  | nan => rfl

theorem jcsRender_num {v : PyValue} {x : Binary64} (h : PyValue.num? v = some x) :
    jcsRender v = jcsDouble x := by
  cases v with
  | int n =>
      rw [PyValue.num?] at h
      split at h
      next hf =>
        cases h
        rw [jcsRender, jcsNumber, jcsInteger, if_pos hf, jcsDouble_normZero]
      next => cases h
  | float y =>
      rw [PyValue.num?] at h
      split at h
      next hf =>
        cases h
        rw [jcsRender, jcsNumber, jcsDouble_normZero]
      next => cases h
  | none => cases h
  | bool b => cases h
  | str s => cases h
  | list xs => cases h
  | tuple xs => cases h
  | dict items => cases h
  | other o => cases h

theorem jcsRender_seq {v : PyValue} {xs : List PyValue} (h : PyValue.seq? v = some xs) :
    jcsRender v = (jcsRenderList xs).map fun out => '[' :: (join [','] out ++ [']']) := by
  rcases PyValue.seq?_eq_some_iff.mp h with rfl | rfl
  · rw [jcsRender]
  · rw [jcsRender]

theorem jcsRenderList_congr {xs ys : List PyValue}
    (h : List.Forall₂ (fun x y => jcsRender x = jcsRender y) xs ys) :
    jcsRenderList xs = jcsRenderList ys := by
  induction h with
  | nil => rfl
  | cons hxy _ ih => rw [jcsRenderList, jcsRenderList, hxy, ih]

/-- The rendered members of the same objects are the same, in some order. -/
theorem rendered_perm {kvs kws : List (PyStr × PyValue)} (hnd : (kvs.map Prod.fst).Nodup)
    (hnd' : (kws.map Prod.fst).Nodup)
    (h : ∀ kv ∈ kvs, ∃ w, (kv.1, w) ∈ kws ∧ jcsRender kv.2 = jcsRender w)
    (hkeys : ∀ k ∈ kws.map Prod.fst, k ∈ kvs.map Prod.fst) :
    (kvs.map fun kv => (kv.1, jcsRender kv.2)).Perm (kws.map fun kv => (kv.1, jcsRender kv.2)) := by
  have hndm : ∀ {l : List (PyStr × PyValue)}, (l.map Prod.fst).Nodup →
      (l.map fun kv => (kv.1, jcsRender kv.2)).Nodup := by
    intro l hl
    refine List.Nodup.of_map Prod.fst ?_
    rwa [List.map_map]
  rw [List.perm_ext_iff_of_nodup (hndm hnd) (hndm hnd')]
  rintro ⟨k, t⟩
  constructor
  · intro hm
    obtain ⟨kv, hkv, he⟩ := List.mem_map.mp hm
    obtain ⟨w, hw, hr⟩ := h kv hkv
    exact List.mem_map.mpr ⟨_, hw, by rw [← he, hr]⟩
  · intro hm
    obtain ⟨kw, hkw, he⟩ := List.mem_map.mp hm
    obtain ⟨kv, hkv, hk⟩ := List.mem_map.mp (hkeys kw.1 (List.mem_map.mpr ⟨kw, hkw, rfl⟩))
    obtain ⟨w, hw, hr⟩ := h kv hkv
    -- a key of the other object has one value there
    rw [hk] at hw
    have heq := List.inj_on_of_nodup_map hnd' hw hkw rfl
    exact List.mem_map.mpr ⟨kv, hkv, by rw [← he, hk, hr, ← heq]⟩

/-- The same values have the same canonical text. -/
theorem jcsRender_congr {v w : PyValue} (hv : v.WF) (hw : w.WF) (jv : v.JsonAble)
    (jw : w.JsonAble) (h : PyValue.Same v w) : jcsRender v = jcsRender w := by
  induction v generalizing w with
  | none => cases h; rfl
  | bool b => cases h; rfl
  | int n =>
      obtain ⟨x, h1, h2⟩ := h
      rw [jcsRender_num h1, jcsRender_num h2]
  | float y =>
      obtain ⟨x, h1, h2⟩ := h
      rw [jcsRender_num h1, jcsRender_num h2]
  | str s => cases h; rfl
  | list xs ih =>
      obtain ⟨ys, hys, hf⟩ := PyValue.same_list_iff.mp h
      rw [PyValue.wf_list] at hv
      rw [PyValue.jsonAble_list] at jv
      rw [jcsRender_seq hys, jcsRender]
      congr 1
      exact jcsRenderList_congr (PyValue.forall₂_imp_of_mem hf fun x hx y hy =>
        ih x hx (hv x hx) (PyValue.wf_of_seq hw hys y hy) (jv x hx)
          (PyValue.jsonAble_of_seq jw hys y hy))
  | tuple xs ih =>
      obtain ⟨ys, hys, hf⟩ := PyValue.same_tuple_iff.mp h
      rw [PyValue.wf_tuple] at hv
      rw [PyValue.jsonAble_tuple] at jv
      rw [jcsRender_seq hys, jcsRender]
      congr 1
      exact jcsRenderList_congr (PyValue.forall₂_imp_of_mem hf fun x hx y hy =>
        ih x hx (hv x hx) (PyValue.wf_of_seq hw hys y hy) (jv x hx)
          (PyValue.jsonAble_of_seq jw hys y hy))
  | dict items ih =>
      obtain ⟨items', rfl, hsub, hkeys⟩ := PyValue.same_dict_iff.mp h
      obtain ⟨kvs, rfl, hkvs⟩ := PyValue.exists_strItems jv
      obtain ⟨kws, rfl, hkws⟩ := PyValue.exists_strItems jw
      rw [PyValue.wf_dict, nodup_strItems] at hv hw
      have hrender : ∀ kv ∈ kvs, ∃ w, (kv.1, w) ∈ kws ∧ jcsRender kv.2 = jcsRender w := by
        intro kv hkv
        have hkv' := PyValue.mem_strItems.mpr hkv
        obtain ⟨w, hw', hs⟩ := hsub _ hkv'
        have hw'' := PyValue.mem_strItems.mp hw'
        exact ⟨w, hw'', ih _ hkv' (hv.2 _ hkv') (hw.2 _ hw') (hkvs kv hkv).2 (hkws _ hw'').2 hs⟩
      have hkeys' : ∀ k ∈ kws.map Prod.fst, k ∈ kvs.map Prod.fst := by
        intro k hk
        have hk' := hkeys (.str k) (keys_strItems kws ▸ List.mem_map_of_mem hk)
        rw [keys_strItems, List.mem_map] at hk'
        obtain ⟨k', hk', he⟩ := hk'
        cases he
        exact hk'
      have hsurr : ∀ kv ∈ kvs.map (fun kv => (kv.1, jcsRender kv.2)),
          noSurrogates kv.1 = true := by
        intro kv' hkv'
        obtain ⟨kv, hkv, rfl⟩ := List.mem_map.mp hkv'
        exact (hkvs kv hkv).1
      have hsort := sortMembers_eq_of_perm hsurr (by rw [List.map_map]; exact hv.1)
        (rendered_perm hv.1 hw.1 hrender hkeys')
      rw [jcsRender_strItems, jcsRender_strItems, hsort]
  | other o => exact absurd jv (PyValue.not_jsonAble_other o)

/-! ## Canonical bytes -/

theorem canonicalJson_ok_iff {v : PyValue} {b : Bytes} :
    canonicalJson v = .ok b ↔ ∃ t, jcsRender v = .ok t ∧ utf8 t = b := map_eq_ok

/-- A value has canonical bytes exactly if it has a JSON text. -/
theorem jsonAble_iff_canonicalJson {v : PyValue} (hwf : v.WF) :
    v.JsonAble ↔ ∃ b, canonicalJson v = .ok b := by
  constructor
  · intro hj
    obtain ⟨t, ht, _⟩ := reads_jcsRender Decoder.default_plain hwf hj
    exact ⟨utf8 t, canonicalJson_ok_iff.mpr ⟨t, ht, rfl⟩⟩
  · rintro ⟨b, hb⟩
    obtain ⟨t, ht, _⟩ := canonicalJson_ok_iff.mp hb
    exact jsonAble_of_jcsRender ht

/-- The same JSON value has the same bytes. -/
theorem canonicalJson_congr {v w : PyValue} (hv : v.WF) (hw : w.WF) (jv : v.JsonAble)
    (jw : w.JsonAble) (h : PyValue.Same v w) : canonicalJson v = canonicalJson w := by
  rw [canonicalJson, canonicalJson, jcsRender_congr hv hw jv jw h]

/-- Equal canonical bytes are read back as one value, which both stand for. -/
theorem same_of_canonicalJson {v w : PyValue} (hv : v.WF) (hw : w.WF) {b : Bytes}
    (hb : canonicalJson v = .ok b) (hb' : canonicalJson w = .ok b) : PyValue.Same v w := by
  have jv := (jsonAble_iff_canonicalJson hv).mpr ⟨b, hb⟩
  have jw := (jsonAble_iff_canonicalJson hw).mpr ⟨b, hb'⟩
  obtain ⟨t, ht, x, hx, hsx, hwx⟩ := reads_jcsRender Decoder.default_plain hv jv
  obtain ⟨t', ht', y, hy, hsy, hwy⟩ := reads_jcsRender Decoder.default_plain hw jw
  obtain ⟨u, hu, rfl⟩ := canonicalJson_ok_iff.mp hb
  obtain ⟨u', hu', he⟩ := canonicalJson_ok_iff.mp hb'
  cases ht.symm.trans hu
  cases ht'.symm.trans hu'
  cases utf8_injective he
  cases hx.unique hy
  exact PyValue.same_trans hsx (PyValue.same_symm hwx hsy)

/-- Canonical bytes are a complete invariant of a value in the binary64 domain. -/
theorem canonicalJson_complete {v w : PyObject} (jv : v.val.JsonAble) (jw : w.val.JsonAble) :
    ∃ b c, canonicalJson v.val = .ok b ∧ canonicalJson w.val = .ok c ∧
      (b = c ↔ PyValue.Same v.val w.val) := by
  obtain ⟨b, hb⟩ := (jsonAble_iff_canonicalJson v.wf).mp jv
  obtain ⟨c, hc⟩ := (jsonAble_iff_canonicalJson w.wf).mp jw
  refine ⟨b, c, hb, hc, fun h => same_of_canonicalJson v.wf w.wf hb (h ▸ hc), fun h => ?_⟩
  have heq := canonicalJson_congr v.wf w.wf jv jw h
  rw [hb, hc] at heq
  exact Except.ok.inj heq

/-- `True` and `1` are equal in Python, and have different bytes. -/
theorem canonicalJson_complete_bool :
    ∃ b c, canonicalJson (.bool true) = .ok b ∧ canonicalJson (.int 1) = .ok c ∧ b ≠ c := by
  obtain ⟨b, c, hb, hc, h⟩ := canonicalJson_complete (v := ⟨.bool true, rfl⟩) (w := ⟨.int 1, rfl⟩)
    rfl (by decide +kernel)
  exact ⟨b, c, hb, hc, fun heq => nomatch h.mp heq⟩

/-! ## The text has no control characters -/

/-- Not a control character. -/
def plainChar (c : Char) : Prop := 0x20 ≤ c.toNat

instance (c : Char) : Decidable (plainChar c) := inferInstanceAs (Decidable (_ ≤ _))

theorem forall_plain {l : List Char} (h : l.all (fun c => decide (plainChar c)) = true) :
    ∀ c ∈ l, plainChar c := by simpa using h

theorem jcsEscape_plain {c : CodePoint} {t : List Char} (h : jcsEscape c = .ok t) :
    ∀ x ∈ t, plainChar x := by
  rw [jcsEscape.eq_def] at h
  split at h
  next hl =>
    cases h
    obtain ⟨l₁, l₂, hl, _⟩ := List.lookup_eq_some_iff.mp hl
    have hmem : (ord c, t) ∈ jcsEscapes := by
      rw [hl]
      exact List.mem_append_right _ List.mem_cons_self
    have htable : jcsEscapes.all (fun p => p.2.all fun x => decide (plainChar x)) = true := rfl
    exact forall_plain (List.all_eq_true.mp htable _ hmem)
  next hl =>
    split at h
    next =>
      cases h
      refine List.forall_mem_cons.mpr ⟨by decide, List.forall_mem_cons.mpr ⟨by decide, ?_⟩⟩
      exact fun x hx => (hexText_ascii _ x hx).1
    next hlt =>
      cases c with
      | surrogate s => cases h
      | scalar c =>
          cases h
          exact List.forall_mem_singleton.mpr (Nat.le_of_not_lt hlt)

theorem jcsEscapeString_plain {s : PyStr} {t : List Char} (h : jcsEscapeString s = .ok t) :
    ∀ c ∈ t, plainChar c := by
  obtain ⟨out, hout, rfl⟩ := map_eq_ok.mp h
  intro c hc
  rcases List.mem_cons.mp hc with rfl | hc
  · decide
  · rcases List.mem_append.mp hc with hc | hc
    · obtain ⟨u, hu, hc⟩ := List.mem_flatten.mp hc
      obtain ⟨d, _, hd⟩ := PyValue.exists_left_of_forall₂ (mapM_eq_ok.mp hout) hu
      exact jcsEscape_plain hd c hc
    · rw [List.mem_singleton.mp hc]
      decide

theorem jcsDouble_plain {x : Binary64} {t : List Char} (h : jcsDouble x = .ok t) :
    ∀ c ∈ t, plainChar c := by
  cases x with
  | finite neg m =>
      rw [jcsDouble_finite] at h
      cases h
      exact fun c hc => ((esNumber_spec neg m).1.ascii c hc).1
  | inf neg => cases h
  | nan => cases h

theorem jcsRenderList_plain {xs : List PyValue} {ts : List (List Char)}
    (ih : ∀ x ∈ xs, ∀ t, jcsRender x = .ok t → ∀ c ∈ t, plainChar c)
    (h : jcsRenderList xs = .ok ts) : ∀ t ∈ ts, ∀ c ∈ t, plainChar c := by
  induction xs generalizing ts with
  | nil =>
      rw [jcsRenderList] at h
      cases h
      exact fun _ ht => absurd ht List.not_mem_nil
  | cons x xs ih' =>
      rw [jcsRenderList] at h
      obtain ⟨t, ht, h⟩ := bind_eq_ok.mp h
      obtain ⟨us, hus, h⟩ := bind_eq_ok.mp h
      cases h
      exact List.forall_mem_cons.mpr ⟨ih x List.mem_cons_self t ht,
        ih' (fun y hy => ih y (List.mem_cons_of_mem _ hy)) hus⟩

/-- Canonical text has no control characters, and in particular no line endings. -/
theorem jcsRender_plain {v : PyValue} {t : List Char} (h : jcsRender v = .ok t) :
    ∀ c ∈ t, plainChar c := by
  have hsep : ∀ c ∈ [','], plainChar c := forall_plain rfl
  induction v generalizing t with
  | none => rw [jcsRender] at h; cases h; exact forall_plain rfl
  | bool b => rw [jcsRender] at h; cases h; cases b <;> exact forall_plain rfl
  | int n =>
      rw [jcsRender, jcsNumber, jcsInteger] at h
      split at h
      · exact jcsDouble_plain h
      · cases h
  | float x => rw [jcsRender, jcsNumber] at h; exact jcsDouble_plain h
  | str s => rw [jcsRender] at h; exact jcsEscapeString_plain h
  | list xs ih =>
      rw [jcsRender] at h
      obtain ⟨ts, hts, rfl⟩ := map_eq_ok.mp h
      exact forall_join (by decide) (by decide) hsep
        (jcsRenderList_plain (fun x hx t ht => ih x hx ht) hts)
  | tuple xs ih =>
      rw [jcsRender] at h
      obtain ⟨ts, hts, rfl⟩ := map_eq_ok.mp h
      exact forall_join (by decide) (by decide) hsep
        (jcsRenderList_plain (fun x hx t ht => ih x hx ht) hts)
  | dict items ih =>
      obtain ⟨kvs, rfl, _⟩ := PyValue.exists_strItems (jsonAble_of_jcsRender h)
      rw [jcsRender_sortMembers] at h
      obtain ⟨ts, hts, h⟩ := bind_eq_ok.mp h
      cases h
      refine forall_join (by decide) (by decide) hsep fun t ht c hc => ?_
      obtain ⟨kv, hkv, hm⟩ := PyValue.exists_left_of_forall₂ (mapM_eq_ok.mp hts) ht
      have hkv' := PyValue.mem_strItems.mpr ((sortMembers_perm kvs).mem_iff.mp hkv)
      rw [jcsMember] at hm
      obtain ⟨k, hk, hm⟩ := bind_eq_ok.mp hm
      obtain ⟨u, hu, hm⟩ := bind_eq_ok.mp hm
      cases hm
      rcases List.mem_append.mp hc with hc | hc
      · exact jcsEscapeString_plain hk c hc
      · rcases List.mem_cons.mp hc with rfl | hc
        · decide
        · exact ih _ hkv' hu c hc
  | other o => rw [jcsRender] at h; cases h

end Corrlog
