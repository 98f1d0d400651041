import Corrlog.Core.Canonical

/-!
# The wire

A value travels as its canonical bytes or as what `json.dumps` writes.  Whatever
decoder reads it back, if it makes a dict of distinct members, the result is the
same value in the binary64 domain and has the same canonical bytes
(`wire_read`).
-/

namespace Corrlog

open Python

/-- The two wire forms of a value. -/
inductive Wire (v : PyValue) : Bytes → Prop
  | canonical {b : Bytes} : canonicalJson v = .ok b → Wire v b
  | dumps {t : List Char} : dumps [' '] v = .ok t → Wire v (utf8 t)

/-- `json.loads(b.decode())`. -/
def loadsBytes (D : Decoder) (b : Bytes) : Option PyValue := (decodeUtf8 b).bind (loads D)

/-- Either wire form is a text that is read back as the same value. -/
theorem wire_reads {D : Decoder} (hD : D.Plain) {v : PyValue} (hwf : v.WF) (hj : v.JsonAble)
    {b : Bytes} (hb : Wire v b) : ∃ t, b = utf8 t ∧ ReadsSame D t v := by
  cases hb with
  | canonical h =>
      obtain ⟨t, ht, rfl⟩ := canonicalJson_ok_iff.mp h
      obtain ⟨t', ht', hr⟩ := reads_jcsRender hD hwf hj
      cases ht.symm.trans ht'
      exact ⟨t, rfl, hr⟩
  | dumps h =>
      obtain ⟨t', ht', hr⟩ := reads_dumps hD isWs_space hwf hj
      cases h.symm.trans ht'
      exact ⟨_, rfl, listed v, hr, same_listed hj, wf_listed hwf⟩

/-- What is read back has a JSON text and the same canonical bytes. -/
theorem canonicalJson_of_same {v w : PyValue} (hv : v.WF) (hj : v.JsonAble) (hw : w.WF)
    (h : PyValue.Same v w) : canonicalJson w = canonicalJson v :=
  (canonicalJson_congr hv hw hj (PyValue.jsonAble_of_same hj hw h) h).symm

theorem wire_read {D : Decoder} (hD : D.Plain) {v : PyValue} (hwf : v.WF) (hj : v.JsonAble)
    {b : Bytes} (hb : Wire v b) :
    ∃ w, loadsBytes D b = some w ∧ w.WF ∧ PyValue.Same v w ∧ canonicalJson w = canonicalJson v := by
  obtain ⟨t, rfl, w, hr, hs, hw⟩ := wire_reads hD hwf hj hb
  exact ⟨w, by rw [loadsBytes, decodeUtf8_utf8]; exact hr.loads, hw, hs,
    canonicalJson_of_same hwf hj hw hs⟩

end Corrlog
