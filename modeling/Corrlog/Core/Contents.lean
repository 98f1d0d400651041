import Corrlog.Core.Exact
import Corrlog.Python.Repr

/-!
# Hashes of contents

A record stores a hash of its arguments and of its result, and a correction one of
the corrected content.  What is hashed is the canonical text of a dict and `str` of
anything else (`contentBytes`), so a hash stands for a text.

Two dicts have one text if they are one JSON value.  Two strings have one text if
they are equal, and so have two values that are neither: `str` shows the order of
members and the kind of a number.  The text of a string is any text at all, that of
a dict included.
-/

namespace Corrlog

open Python

/-! ## What a record stores -/

/-- `v[k1][k2]`. -/
def field (v : PyValue) (k1 k2 : String) : Except PyErr PyValue := do
  let inner ← v.getItem k1
  inner.getItem k2

/-- `v[k1][k2]["digest"]`. -/
def storedDigest (v : PyValue) (k1 k2 : String) : Except PyErr PyValue := do
  let hash ← field v k1 k2
  hash.getItem "digest"

/-- The contents of a call, each with the place of its hash. -/
def Call.hashed : Call → List (String × String × PyObject)
  | .record _ a =>
      [("metadata", "inputHash", a.actionArgs), ("metadata", "outputHash", a.actionResult)]
  | .retract _ a => [("fix", "contentHash", a.correctedContent)]
  | .unknown _ _ => []

theorem field_setIn {body body' v : PyValue} {k1 k2 : String} (h : setIn body k1 k2 v = .ok body') :
    field body' k1 k2 = .ok v := by
  obtain ⟨items, inner, rfl, _, rfl⟩ := setIn_eq_ok.mp h
  refine bind_eq_ok.mpr ⟨_, PyValue.getItem_eq_ok.mpr ⟨_, rfl, getStr_setStr_self _ _ _⟩, ?_⟩
  exact PyValue.getItem_eq_ok.mpr ⟨_, rfl, getStr_setStr_self _ _ _⟩

/-- Setting one field keeps the others. -/
theorem field_of_setIn {body body' v w : PyValue} {k1 k2 j1 j2 : String}
    (hne : j1 ≠ k1 ∨ j2 ≠ k2) (h : setIn body k1 k2 v = .ok body') (hw : field body j1 j2 = .ok w) :
    field body' j1 j2 = .ok w := by
  obtain ⟨items, inner, rfl, hinner, rfl⟩ := setIn_eq_ok.mp h
  obtain ⟨u, hu, hw⟩ := bind_eq_ok.mp hw
  obtain ⟨_, he, hu⟩ := PyValue.getItem_eq_ok.mp hu
  cases he
  by_cases h1 : j1 = k1
  · subst h1
    rw [hinner, Option.some.injEq] at hu
    subst hu
    obtain ⟨_, he, hw⟩ := PyValue.getItem_eq_ok.mp hw
    cases he
    have h2 : j2 ≠ k2 := hne.resolve_left fun h => h rfl
    refine bind_eq_ok.mpr ⟨_, PyValue.getItem_eq_ok.mpr ⟨_, rfl, getStr_setStr_self _ _ _⟩, ?_⟩
    exact PyValue.getItem_eq_ok.mpr ⟨_, rfl, (getStr_setStr_ne h2 _ _).trans hw⟩
  · refine bind_eq_ok.mpr ⟨u, PyValue.getItem_eq_ok.mpr ⟨_, rfl, ?_⟩, hw⟩
    exact (getStr_setStr_ne h1 _ _).trans hu

theorem field_of_setInIf {cond : Bool} {body body' v w : PyValue} {k1 k2 j1 j2 : String}
    (hne : j1 ≠ k1 ∨ j2 ≠ k2) (h : setInIf cond body k1 k2 v = .ok body')
    (hw : field body j1 j2 = .ok w) : field body' j1 j2 = .ok w := by
  cases cond with
  | true => exact field_of_setIn hne h hw
  | false => cases h; exact hw

variable {P : Platform} {privateKey : P.PrivateKey}

theorem field_setHash {body body' v : PyValue} {k1 k2 : String}
    (h : setHash P body k1 k2 v = .ok body') (hv : v ≠ .none) :
    ∃ data, contentBytes P v = .ok data ∧ field body' k1 k2 = .ok (hashObject P data) := by
  have hset : (contentBytes P v >>= fun data => setIn body k1 k2 (hashObject P data)) =
      .ok body' := by
    cases v with
    | none => exact absurd rfl hv
    | _ => exact h
  obtain ⟨data, hdata, hset⟩ := bind_eq_ok.mp hset
  exact ⟨data, hdata, field_setIn hset⟩

theorem field_of_setHash {body body' v w : PyValue} {k1 k2 j1 j2 : String}
    (hne : j1 ≠ k1 ∨ j2 ≠ k2) (h : setHash P body k1 k2 v = .ok body')
    (hw : field body j1 j2 = .ok w) : field body' j1 j2 = .ok w := by
  cases v with
  | none => cases h; exact hw
  | _ =>
      obtain ⟨data, _, hset⟩ := bind_eq_ok.mp h
      exact field_of_setIn hne hset hw

/-- The body of a call has the hash of each of its contents. -/
theorem Call.field_body {c : Call} {b : PyValue} (h : c.body privateKey = .ok b) {k1 k2 : String}
    {v : PyObject} (hv : (k1, k2, v) ∈ c.hashed) (hne : v.val ≠ .none) :
    ∃ data, contentBytes P v.val = .ok data ∧ field b k1 k2 = .ok (hashObject P data) := by
  cases c with
  | record env a =>
      obtain ⟨_, _, h⟩ := bind_eq_ok.mp h
      obtain ⟨_, _, h⟩ := bind_eq_ok.mp h
      obtain ⟨_, _, h⟩ := bind_eq_ok.mp h
      obtain ⟨_, _, h⟩ := bind_eq_ok.mp h
      obtain ⟨_, h3, h4⟩ := bind_eq_ok.mp h
      rcases List.mem_pair.mp hv with he | he
      · cases he
        obtain ⟨data, hdata, hfield⟩ := field_setHash h3 hne
        exact ⟨data, hdata, field_of_setHash (Or.inr (by decide)) h4 hfield⟩
      · cases he
        exact field_setHash h4 hne
  | retract env a =>
      obtain ⟨_, _, h⟩ := bind_eq_ok.mp h
      obtain ⟨_, _, h⟩ := bind_eq_ok.mp h
      obtain ⟨_, _, h⟩ := bind_eq_ok.mp h
      obtain ⟨_, _, h⟩ := bind_eq_ok.mp h
      obtain ⟨_, _, h⟩ := bind_eq_ok.mp h
      obtain ⟨_, _, h⟩ := bind_eq_ok.mp h
      obtain ⟨_, h2, h3⟩ := bind_eq_ok.mp h
      cases List.mem_singleton.mp hv
      obtain ⟨data, hdata, hfield⟩ := field_setHash h2 hne
      exact ⟨data, hdata, field_of_setInIf (Or.inr (by decide)) h3 hfield⟩
  | unknown env a => exact absurd hv List.not_mem_nil

/-- What a call returns has the digest of each of its contents. -/
theorem Call.storedDigest_eq {c : Call} {r : PyValue} (h : (c.outcome privateKey).result = .ok r)
    {k1 k2 : String} {v : PyObject} (hv : (k1, k2, v) ∈ c.hashed) (hne : v.val ≠ .none) :
    ∃ data, contentBytes P v.val = .ok data ∧
      storedDigest r k1 k2 = .ok (.str (ofChars (b64url (P.sha256 data)))) := by
  obtain ⟨items, kid, data', hbody, _, _, _, _, _, rfl, _⟩ := Call.returned h
  obtain ⟨data, hdata, hfield⟩ := c.field_body hbody hv hne
  have hk1 : k1 ≠ "signature" := by
    cases c with
    | record env a => rcases List.mem_pair.mp hv with he | he <;> (cases he; decide)
    | retract env a => cases List.mem_singleton.mp hv; decide
    | unknown env a => exact absurd hv List.not_mem_nil
  refine ⟨data, hdata, bind_eq_ok.mpr ⟨_, ?_, hashObject_getItem P data⟩⟩
  obtain ⟨u, hu, hfield⟩ := bind_eq_ok.mp hfield
  obtain ⟨_, he, hu⟩ := PyValue.getItem_eq_ok.mp hu
  cases he
  refine bind_eq_ok.mpr ⟨u, PyValue.getItem_eq_ok.mpr ⟨_, rfl, ?_⟩, hfield⟩
  exact (getStr_setStr_ne hk1 _ _).trans hu

/-! ## What is hashed -/

theorem contentBytes_dict {v : PyValue} (h : v.isDict = true) :
    contentBytes P v = canonicalJson v := if_pos h

theorem contentBytes_str (s : PyStr) {data : Bytes} :
    contentBytes P (.str s) = .ok data ↔ encodeUtf8 s = some data := by
  cases hs : encodeUtf8 s with
  | none => simp [contentBytes, pyStr, PyValue.isDict, builtinError, hs]
  | some b => simp [contentBytes, pyStr, PyValue.isDict, hs]

/-- `repr` of the platform is Python's, on JSON values. -/
def ReprIs (P : Platform) (printable : Char → Bool) : Prop :=
  ∀ v, isJson v = true → P.repr v = (pyRepr printable v).map ofChars

variable {printable : Char → Bool}

/-- Anything else is hashed by its `repr`. -/
theorem exists_repr (hrepr : ReprIs P printable) {v : PyValue} (hj : isJson v = true)
    (hd : v.isDict = false) (hs : v.isStr = false) {data : Bytes}
    (h : contentBytes P v = .ok data) : ∃ t, pyRepr printable v = some t ∧ data = utf8 t := by
  have hstr : pyStr P v = (pyRepr printable v).map ofChars := by
    rw [← hrepr v hj]
    cases v with
    | str s => cases hs
    | dict items => cases hd
    | other o => cases hj
    | _ => rfl
  rw [contentBytes, if_neg (by rw [hd]; exact Bool.false_ne_true), hstr] at h
  cases ht : pyRepr printable v with
  | none => rw [ht] at h; cases h
  | some t =>
      rw [ht, Option.map_some, Option.map_some, encodeUtf8_ofChars] at h
      cases h
      exact ⟨t, rfl, rfl⟩

theorem encodeUtf8_injective {s s' : PyStr} {data : Bytes} (h : encodeUtf8 s = some data)
    (h' : encodeUtf8 s' = some data) : s = s' := by
  obtain ⟨cs, hcs, rfl⟩ := Option.map_eq_some_iff.mp h
  obtain ⟨cs', hcs', he⟩ := Option.map_eq_some_iff.mp h'
  rw [chars?_eq_some_iff.mp hcs, chars?_eq_some_iff.mp hcs', utf8_injective he]

/-- Of contents that are no dicts, two strings or two others, equal ones only have one
text. -/
theorem eq_of_contentBytes (hrepr : ReprIs P printable) {v w : PyValue} (hv : isJson v = true)
    (hw : isJson w = true) (dv : v.isDict = false) (dw : w.isDict = false) (hs : v.isStr = w.isStr)
    {data : Bytes} (h : contentBytes P v = .ok data) (h' : contentBytes P w = .ok data) :
      v = w := by
  cases hstr : v.isStr with
  | true =>
      obtain ⟨s, rfl⟩ : ∃ s, v = .str s := by
        cases v with
        | str s => exact ⟨s, rfl⟩
        | _ => cases hstr
      obtain ⟨s', rfl⟩ : ∃ s', w = .str s' := by
        rw [hstr] at hs
        cases w with
        | str s' => exact ⟨s', rfl⟩
        | _ => cases hs
      rw [encodeUtf8_injective ((contentBytes_str s).mp h) ((contentBytes_str s').mp h')]
  | false =>
      obtain ⟨t, ht, hdata⟩ := exists_repr hrepr hv dv hstr h
      obtain ⟨t', ht', hdata'⟩ := exists_repr hrepr hw dw (hs.symm.trans hstr) h'
      rw [hdata] at hdata'
      rw [← utf8_injective hdata'] at ht'
      exact pyRepr_injective hv hw ht ht'

theorem exists_brace {v : PyValue} (hwf : v.WF) (h : v.isDict = true) {data : Bytes}
    (hd : canonicalJson v = .ok data) : ∃ s, data = utf8 ('{' :: s) := by
  obtain ⟨items, rfl⟩ := PyValue.exists_dict_of_isDict h
  obtain ⟨kvs, rfl, _⟩ := PyValue.exists_strItems ((jsonAble_iff_canonicalJson hwf).mpr ⟨_, hd⟩)
  obtain ⟨t, ht, rfl⟩ := canonicalJson_ok_iff.mp hd
  rw [jcsRender_strItems] at ht
  obtain ⟨out, _, ht⟩ := bind_eq_ok.mp ht
  cases ht
  exact ⟨_, rfl⟩

/-- A dict has no text with a value that is neither a dict nor a string. -/
theorem contentBytes_ne (hrepr : ReprIs P printable) {v w : PyValue} (hv : v.WF)
    (hw : isJson w = true) (dv : v.isDict = true) (dw : w.isDict = false) (sw : w.isStr = false)
    {data : Bytes} (h : contentBytes P v = .ok data) (h' : contentBytes P w = .ok data) :
      False := by
  rw [contentBytes_dict dv] at h
  obtain ⟨s, rfl⟩ := exists_brace hv dv h
  obtain ⟨t, ht, hdata⟩ := exists_repr hrepr hw dw sw h'
  obtain ⟨c, s', rfl, hc⟩ := tagOf_head hw ht
  have hbrace : c = '{' := (List.cons.inj (utf8_injective hdata)).1.symm
  subst hbrace
  cases w with
  | dict items => cases dw
  | bool b => cases b <;> cases hc
  | _ => cases hc

/-! ## Digests and contents -/

/-- Canonical bytes are the same if they are those of one JSON value. -/
theorem eq_iff_same {v w : PyValue} {x y : Bytes} (hv : v.WF) (hw : w.WF)
    (hx : canonicalJson v = .ok x) (hy : canonicalJson w = .ok y) : x = y ↔ PyValue.Same v w := by
  constructor
  · intro h
    exact same_of_canonicalJson hv hw hx (h ▸ hy)
  · intro h
    have hc := canonicalJson_congr hv hw ((jsonAble_iff_canonicalJson hv).mpr ⟨x, hx⟩)
      ((jsonAble_iff_canonicalJson hw).mpr ⟨y, hy⟩) h
    rw [hx, hy] at hc
    exact Except.ok.inj hc

/-- Assume that the texts of two contents that constructors hashed do not collide.  The
stored digests are equal if and only if the texts are: for two dicts, if they are one
JSON value; for two strings, or two values that are neither, if they are one Python
value; for a dict and a value that is neither, never. -/
theorem content_hashes (P : Platform) (printable : Char → Bool) (hrepr : ReprIs P printable)
    (privateKey privateKey' : P.PrivateKey) (c c' : Call) {r r' : PyValue}
    (hr : (c.outcome privateKey).result = .ok r) (hr' : (c'.outcome privateKey').result = .ok r')
    {k1 k2 k1' k2' : String} {a b : PyObject} (ha : (k1, k2, a) ∈ c.hashed)
    (hb : (k1', k2', b) ∈ c'.hashed) (na : a.val ≠ .none) (nb : b.val ≠ .none)
    (ja : isJson a.val = true) (jb : isJson b.val = true)
    (hcoll : ∀ x y, contentBytes P a.val = .ok x → contentBytes P b.val = .ok y →
      P.sha256 x = P.sha256 y → x = y) :
    (storedDigest r k1 k2 = storedDigest r' k1' k2' ↔
      contentBytes P a.val = contentBytes P b.val) ∧
    (a.val.isDict = true → b.val.isDict = true →
      (storedDigest r k1 k2 = storedDigest r' k1' k2' ↔
        canonicalJson a.val = canonicalJson b.val) ∧
      (canonicalJson a.val = canonicalJson b.val ↔ PyValue.Same a.val b.val)) ∧
    (a.val.isDict = false → b.val.isDict = false → a.val.isStr = b.val.isStr →
      (storedDigest r k1 k2 = storedDigest r' k1' k2' ↔ a.val = b.val)) ∧
    (a.val.isDict ≠ b.val.isDict → a.val.isStr = false → b.val.isStr = false →
      storedDigest r k1 k2 ≠ storedDigest r' k1' k2') := by
  obtain ⟨x, hx, hdx⟩ := Call.storedDigest_eq hr ha na
  obtain ⟨y, hy, hdy⟩ := Call.storedDigest_eq hr' hb nb
  have htext : storedDigest r k1 k2 = storedDigest r' k1' k2' ↔ x = y := by
    rw [hdx, hdy, Except.ok.injEq, PyValue.str.injEq]
    constructor
    · intro h
      exact hcoll x y hx hy (b64url_injective (ofChars_injective h))
    · intro h
      rw [h]
  refine ⟨?_, ?_, ?_, ?_⟩
  · rw [htext, hx, hy, Except.ok.injEq]
  · intro da db
    rw [contentBytes_dict da] at hx
    rw [contentBytes_dict db] at hy
    rw [htext, hx, hy, Except.ok.injEq]
    exact ⟨Iff.rfl, eq_iff_same a.wf b.wf hx hy⟩
  · intro da db hs
    rw [htext]
    constructor
    · intro h
      exact eq_of_contentBytes hrepr ja jb da db hs hx (h ▸ hy)
    · intro h
      rw [h, hy, Except.ok.injEq] at hx
      exact hx.symm
  · intro hd sa sb h
    rw [htext] at h
    subst h
    cases da : a.val.isDict with
    | true =>
        rw [da] at hd
        exact contentBytes_ne hrepr a.wf jb da (Bool.eq_false_of_not_eq_true hd.symm) sb hx hy
    | false =>
        rw [da] at hd
        exact contentBytes_ne hrepr b.wf ja (Bool.eq_true_of_not_eq_false hd.symm) da sa hy hx

/-! ## Concrete contents -/

namespace Vector

/-- The digests of a few contents. -/
def contentSha256 (data : Bytes) : Bytes :=
  if data = utf8 "\x7b\x7d".toList then raw 32 "RBNvo1WzZ4oRRq0W9-hknpT7T8If536DEMBg9hyq_4o"
  else if data = utf8 "\x7b\"a\":1,\"b\":2\x7d".toList then
    raw 32 "QyWM_3g_5wNtikMDP4MK38YOwDc4JHNUisdCuIgpJ3c"
  else if data = utf8 "[\x7b'a': 1, 'b': 2\x7d]".toList then
    raw 32 "GTlemfnGgzTlYHhUlY7OhZNeFYgRVrFtL5LgxQoDvh8"
  else if data = utf8 "[\x7b'b': 2, 'a': 1\x7d]".toList then
    raw 32 "_y3rwqt_xS8kIxVUBnSQ6-noc_uqv42htbeLNT5588g"
  else sha256 data

/-- The platform of the vectors, with `repr`. -/
def reprPlatform : Platform :=
  { platform with
    sha256 := contentSha256
    repr := fun v => (pyRepr (fun _ => true) v).map ofChars }

/-- The call of `record` with the arguments. -/
def contentCall (v : PyObject) : Call := .record env { recordArgs with actionArgs := v }

/-- `{}`. -/
def emptyDict : PyObject := ⟨.dict [], rfl⟩

/-- The string of its canonical text. -/
def emptyText : PyObject := ⟨.str (lit "\x7b\x7d"), rfl⟩

/-- `{"a": 1, "b": 2}`. -/
def abDict : PyObject := ⟨dictOf [("a", .int 1), ("b", .int 2)], by decide +kernel⟩

/-- `{"b": 2, "a": 1}`. -/
def baDict : PyObject := ⟨dictOf [("b", .int 2), ("a", .int 1)], by decide +kernel⟩

/-- A list of one element. -/
def single (v : PyObject) : PyObject :=
  ⟨.list [v.val], (PyValue.wf_list _).mpr (List.forall_mem_singleton.mpr v.wf)⟩

theorem contentCalls_ok : [emptyDict, emptyText, abDict, baDict, single abDict, single baDict].all
    (fun v => ((contentCall v).outcome (P := reprPlatform) ()).result.isOk) = true := by
  decide +kernel

/-- What the call returns. -/
def contentRecord (v : PyObject) : PyValue :=
  returned ((contentCall v).outcome (P := reprPlatform) ())

theorem contentCall_ok {v : PyObject}
    (h : v ∈ [emptyDict, emptyText, abDict, baDict, single abDict, single baDict]) :
    ((contentCall v).outcome (P := reprPlatform) ()).result = .ok (contentRecord v) :=
  result_eq_returned (List.all_eq_true.mp contentCalls_ok v h)

end Vector

section

open Corrlog.Vector

/-- `{}` and its text have one digest, and two orders of the members of a dict in a list
have two. -/
theorem content_hashes_collision :
    (∃ r r', ((contentCall emptyDict).outcome (P := reprPlatform) ()).result = .ok r ∧
      ((contentCall emptyText).outcome (P := reprPlatform) ()).result = .ok r' ∧
      storedDigest r "metadata" "inputHash" = storedDigest r' "metadata" "inputHash" ∧
      canonicalJson emptyDict.val ≠ canonicalJson emptyText.val) ∧
    ∃ r r', ((contentCall (single abDict)).outcome (P := reprPlatform) ()).result = .ok r ∧
      ((contentCall (single baDict)).outcome (P := reprPlatform) ()).result = .ok r' ∧
      storedDigest r "metadata" "inputHash" ≠ storedDigest r' "metadata" "inputHash" ∧
      canonicalJson (single abDict).val = canonicalJson (single baDict).val := by
  have hmem (v : PyObject) :
      ("metadata", "inputHash", v) ∈ (contentCall v).hashed := List.mem_cons_self
  constructor
  · have hr := contentCall_ok (v := emptyDict) (by simp)
    have hr' := contentCall_ok (v := emptyText) (by simp)
    obtain ⟨x, hx, hdx⟩ := Call.storedDigest_eq hr (hmem _) (by intro h; cases h)
    obtain ⟨y, hy, hdy⟩ := Call.storedDigest_eq hr' (hmem _) (by intro h; cases h)
    have htext : contentBytes reprPlatform emptyDict.val =
        contentBytes reprPlatform emptyText.val := by
      decide +kernel
    rw [hx, hy, Except.ok.injEq] at htext
    exact ⟨_, _, hr, hr', by rw [hdx, hdy, htext], by decide +kernel⟩
  · have hr := contentCall_ok (v := single abDict) (by simp)
    have hr' := contentCall_ok (v := single baDict) (by simp)
    obtain ⟨x, hx, hdx⟩ := Call.storedDigest_eq hr (hmem _) (by intro h; cases h)
    obtain ⟨y, hy, hdy⟩ := Call.storedDigest_eq hr' (hmem _) (by intro h; cases h)
    have hsha : (contentBytes reprPlatform (single abDict).val).map reprPlatform.sha256 ≠
        (contentBytes reprPlatform (single baDict).val).map reprPlatform.sha256 := by
      decide +kernel
    rw [hx, hy] at hsha
    refine ⟨_, _, hr, hr', ?_, by decide +kernel⟩
    rw [hdx, hdy]
    intro h
    exact hsha (congrArg Except.ok
      (b64url_injective (ofChars_injective (PyValue.str.inj (Except.ok.inj h)))))

/-- Two orders of members have one digest, and a dict and a list of it have two. -/
theorem content_hashes_members :
    storedDigest (contentRecord abDict) "metadata" "inputHash" =
      storedDigest (contentRecord baDict) "metadata" "inputHash" ∧
    storedDigest (contentRecord abDict) "metadata" "inputHash" ≠
      storedDigest (contentRecord (single abDict)) "metadata" "inputHash" := by
  have hr := contentCall_ok (v := abDict) (by simp)
  have hba := contentCall_ok (v := baDict) (by simp)
  have hlist := contentCall_ok (v := single abDict) (by simp)
  have hcanon : canonicalJson abDict.val = canonicalJson baDict.val := by decide +kernel
  have hsha : (contentBytes reprPlatform abDict.val).map reprPlatform.sha256 ≠
      (contentBytes reprPlatform (single abDict).val).map reprPlatform.sha256 := by
    decide +kernel
  have hmem (v : PyObject) :
      ("metadata", "inputHash", v) ∈ (contentCall v).hashed := List.mem_cons_self
  constructor
  · refine ((content_hashes reprPlatform (fun _ => true) (fun _ _ => rfl) () () _ _ hr hba
      (hmem _) (hmem _) (by intro h; cases h) (by intro h; cases h) rfl rfl ?_).2.1 rfl rfl).1.mpr
        hcanon
    intro x y hx hy _
    rw [contentBytes_dict rfl] at hx hy
    rw [hcanon, hy] at hx
    exact (Except.ok.inj hx).symm
  · refine (content_hashes reprPlatform (fun _ => true) (fun _ _ => rfl) () () _ _ hr hlist
      (hmem _) (hmem _) (by intro h; cases h) (by intro h; cases h) rfl rfl ?_).2.2.2
        (by decide) rfl rfl
    intro x y hx hy h
    rw [hx, hy] at hsha
    exact absurd (congrArg Except.ok h) hsha

end

end Corrlog
