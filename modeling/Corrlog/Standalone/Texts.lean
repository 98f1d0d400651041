import Corrlog.Standalone.Agreement

/-!
# Texts of keys and signatures

A key, a signature or a digest has one text.  The decoders of the core and of the
offline verifier fill up the padding, translate two characters and drop left-over
bits, but both compare with what they would write themselves: they accept the
same strings, and these are the written ones.

What that excludes is said of the strings as well (`decodeExact_shape`): all
characters are of the URL-safe alphabet, and the number of bytes determines how
many there are.
-/

namespace Corrlog.Standalone

open Python

/-- The characters of an accepted text. -/
theorem decodeExact_shape {v : PyStr} {n : ℕ} {raw : Bytes}
    (h : decodeExact (.str v) n = .ok raw) :
    (∀ c ∈ v, ∃ k < 64, c = .scalar (sextetChar k)) ∧ v.length = (n * 4 + 2) / 3 := by
  obtain ⟨hlen, hv⟩ := decodeExact_eq_ok.mp h
  have htext : v = ofChars (b64url raw) := PyValue.str.inj hv
  constructor
  · intro c hc
    rw [htext, b64url_eq] at hc
    obtain ⟨d, hd, rfl⟩ := List.mem_map.mp hc
    obtain ⟨k, hk, rfl⟩ := List.mem_map.mp hd
    exact ⟨k, sextets_lt raw k hk, rfl⟩
  · rw [htext, length_ofChars, length_b64url, hlen]

/-- Without a size the offline verifier accepts what is written for any bytes. -/
theorem b64urlDecode_none {v : PyStr} {raw : Bytes} :
    b64urlDecode (.str v) none = .ok raw ↔ v = ofChars (b64url raw) := by
  have hsome : b64urlDecode (.str v) none = .ok raw ↔
      b64urlDecode (.str v) (some raw.length) = .ok raw := by
    rw [b64urlDecode, b64urlDecode, bind_eq_ok, bind_eq_ok]
    refine exists_congr fun data => and_congr_right fun _ => ?_
    rw [Option.any_none, Option.any_some]
    by_cases htext : ofChars (unpadded data) ≠ v
    · rw [if_pos (Or.inl htext), if_pos (Or.inl htext)]
    · rw [if_neg (by simpa using htext)]
      constructor
      · intro h
        cases h
        rw [if_neg (by simpa using htext)]
        rfl
      · intro h
        split at h
        next => cases h
        next => exact h
  rw [hsome, b64urlDecode_eq_ok]
  simp

/-- One text denotes given bytes, and the decoders read no other. -/
theorem one_text :
    (∀ (v : PyStr) (n : ℕ) (raw : Bytes),
      decodeExact (.str v) n = .ok raw ↔ raw.length = n ∧ v = ofChars (b64url raw)) ∧
    (∀ (v : PyStr) (n : ℕ), (¬∃ raw : Bytes, raw.length = n ∧ v = ofChars (b64url raw)) →
      ∃ e, decodeExact (.str v) n = .error e) ∧
    (∀ (v : PyStr) (n : ℕ) (raw : Bytes), decodeExact (.str v) n = .ok raw →
      (∀ c ∈ v, ∃ k < 64, c = .scalar (sextetChar k)) ∧ v.length = (n * 4 + 2) / 3) ∧
    (∀ raw : Bytes, decodeExact (.str (ofChars (b64url raw))) raw.length = .ok raw) ∧
    (∀ (v v' : PyStr) (n n' : ℕ) (raw : Bytes), decodeExact (.str v) n = .ok raw →
      decodeExact (.str v') n' = .ok raw → v = v') ∧
    (∀ (P : Platform) (pk : P.PublicKey),
      loadPublicKey P (.str (ofChars (publicKeyB64url P pk))) = .ok pk) ∧
    (∀ (v : PyStr) (n : ℕ) (raw : Bytes),
      b64urlDecode (.str v) (some n) = .ok raw ↔ decodeExact (.str v) n = .ok raw) ∧
    ∀ (v : PyStr) (raw : Bytes),
      b64urlDecode (.str v) none = .ok raw ↔ decodeExact (.str v) raw.length = .ok raw := by
  have haccept (v : PyStr) (n : ℕ) (raw : Bytes) :
      decodeExact (.str v) n = .ok raw ↔ raw.length = n ∧ v = ofChars (b64url raw) := by
    rw [decodeExact_eq_ok, PyValue.str.injEq]
  refine ⟨haccept, ?_, fun v n raw => decodeExact_shape, ?_, ?_, ?_, ?_, ?_⟩
  · intro v n hno
    cases h : decodeExact (.str v) n with
    | ok raw => exact absurd ⟨raw, (haccept v n raw).mp h⟩ hno
    | error e => exact ⟨e, rfl⟩
  · intro raw
    exact (haccept _ _ raw).mpr ⟨rfl, rfl⟩
  · intro v v' n n' raw h h'
    rw [((haccept v n raw).mp h).2, ((haccept v' n' raw).mp h').2]
  · intro P pk
    exact (loadPublicKey_eq_ok P).mpr rfl
  · intro v n raw
    rw [b64urlDecode_eq_ok, decodeExact_eq_ok]
  · intro v raw
    rw [b64urlDecode_none, haccept]
    simp

/-- The text of a zero byte, and three others that a lenient decoder would take for it. -/
example : decodeExact (.str (lit "AA")) 1 = .ok [0] ∧
    (∀ t ∈ ["AA==", "AB", "AA\n"], ∃ e, decodeExact (.str (lit t)) 1 = .error e) := by
  refine ⟨by rfl, ?_⟩
  simp only [List.forall_mem_cons]
  exact ⟨⟨_, rfl⟩, ⟨_, rfl⟩, ⟨_, rfl⟩, fun _ h => absurd h List.not_mem_nil⟩

end Corrlog.Standalone
