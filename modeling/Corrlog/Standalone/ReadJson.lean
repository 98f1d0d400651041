import Corrlog.Core.Wire
import Corrlog.Python.TextFile

/-!
# The strict parser of the standalone verifier

`read_json` refuses a repeated member at any depth and the constants `NaN`,
`Infinity` and `-Infinity`.  What either encoder writes for a value passes it,
and is read as a value with the same canonical bytes.
-/

namespace Corrlog.Standalone

open Python

/-- One step of `_unique_object`. -/
def addUnique (result : Option Items) (kv : PyStr × PyValue) : Option Items :=
  result.bind fun d =>
    if (getKey (.str kv.1) d).isSome then none else some (setKey (.str kv.1) kv.2 d)

/-- `_unique_object`. -/
def uniqueObject (pairs : List (PyStr × PyValue)) : Option PyValue :=
  (pairs.foldl addUnique (some [])).map .dict

/-- The hooks of `read_json`. -/
def strictDecoder : Decoder where
  object := uniqueObject
  constant _ := none

/-- `read_json`, on the content of the file. -/
def readJson (b : Bytes) : Option PyValue := (readText b).bind (loads strictDecoder)

theorem addUnique_of_notMem {d : Items} {kv : PyStr × PyValue}
    (h : PyKey.str kv.1 ∉ d.map Prod.fst) :
    addUnique (some d) kv = some (d ++ [(PyKey.str kv.1, kv.2)]) := by
  rw [addUnique, Option.bind_some, getKey_eq_none_iff.mpr h, setKey_of_notMem h]
  rfl

/-- Members with distinct keys are kept in their order. -/
theorem foldl_addUnique {kvs : List (PyStr × PyValue)} {d : Items}
    (hnd : (kvs.map Prod.fst).Nodup) (hd : ∀ kv ∈ kvs, PyKey.str kv.1 ∉ d.map Prod.fst) :
    kvs.foldl addUnique (some d) = some (d ++ strItems kvs) := by
  induction kvs generalizing d with
  | nil => rw [List.foldl_nil, strItems, List.map_nil, List.append_nil]
  | cons kv kvs ih =>
      rw [List.map_cons, List.nodup_cons] at hnd
      rw [List.foldl_cons, addUnique_of_notMem (hd kv List.mem_cons_self), ih hnd.2]
      · rw [List.append_assoc]
        rfl
      · intro kv' hkv'
        rw [List.map_append, List.mem_append, not_or]
        refine ⟨hd kv' (List.mem_cons_of_mem _ hkv'), ?_⟩
        simp only [List.map_cons, List.map_nil, List.mem_singleton, PyKey.str.injEq]
        rintro h
        exact hnd.1 (h ▸ List.mem_map.mpr ⟨kv', hkv', rfl⟩)

theorem strictDecoder_plain : strictDecoder.Plain := fun kvs hnd => by
  have h := foldl_addUnique hnd (d := []) fun _ _ => List.not_mem_nil
  rw [List.nil_append] at h
  exact congrArg (Option.map PyValue.dict) h

/-- Neither wire form has a line ending that text mode would change. -/
theorem wire_noReturn {v : PyValue} {t : List Char} (h : Wire v (utf8 t)) : '\r' ∉ t := by
  intro hr
  generalize hb : utf8 t = b at h
  cases h with
  | canonical h =>
      obtain ⟨u, hu, rfl⟩ := canonicalJson_ok_iff.mp h
      cases utf8_injective hb
      exact absurd (jcsRender_plain hu _ hr) (by decide)
  | dumps h =>
      cases utf8_injective hb
      exact absurd (dumps_ascii (forall_ascii rfl) h _ hr) (by decide)

theorem readJson_wire {v : PyValue} (hwf : v.WF) (hj : v.JsonAble) {b : Bytes} (hb : Wire v b) :
    ∃ w, readJson b = some w ∧ w.WF ∧ PyValue.Same v w ∧ canonicalJson w = canonicalJson v := by
  obtain ⟨t, rfl, w, hr, hs, hw⟩ := wire_reads strictDecoder_plain hwf hj hb
  exact ⟨w, by rw [readJson, readText_utf8 (wire_noReturn hb)]; exact hr.loads, hw, hs,
    canonicalJson_of_same hwf hj hw hs⟩

/-- Both wire forms of a value with canonical bytes exist, and both parsers read
them as a value with the same canonical bytes. -/
theorem wire_roundTrip {v : PyObject} {c : Bytes} (hc : canonicalJson v.val = .ok c) :
    (∃ t, dumps [' '] v.val = .ok t) ∧
      ∀ b, Wire v.val b →
        (∃ w, loadsBytes .default b = some w ∧ canonicalJson w = .ok c) ∧
          ∃ w, readJson b = some w ∧ canonicalJson w = .ok c := by
  have hj := (jsonAble_iff_canonicalJson v.wf).mpr ⟨c, hc⟩
  obtain ⟨t, ht, _⟩ := reads_dumps Decoder.default_plain isWs_space v.wf hj
  refine ⟨⟨t, ht⟩, fun b hb => ⟨?_, ?_⟩⟩
  · obtain ⟨w, hw, _, _, he⟩ := wire_read Decoder.default_plain v.wf hj hb
    exact ⟨w, hw, he.trans hc⟩
  · obtain ⟨w, hw, _, _, he⟩ := readJson_wire v.wf hj hb
    exact ⟨w, hw, he.trans hc⟩

theorem wire_roundTrip_rounded :
    ∃ w, readJson (utf8 "[9007199254740992]".toList) = some w ∧
      canonicalJson w = .ok (utf8 "[9007199254740992]".toList) := by
  have h := wire_roundTrip (v := ⟨.list [.int 9007199254740993], rfl⟩)
    (c := utf8 "[9007199254740992]".toList) (by decide +kernel)
  exact (h.2 _ (.canonical (by decide +kernel))).2

end Corrlog.Standalone
