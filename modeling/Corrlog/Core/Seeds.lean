import Corrlog.Core.Keys
import Corrlog.Python.Decoders

/-!
# Seeds

`load_private_key` makes a key of a seed of 32 bytes, which may be written as
base64url without padding or as hexadecimal digits, after a prefix or without one.

The prefix is looked for in what is there.  Without one, that is the encoding, and
base64url may itself start with `sk_` or `priv_`: such a seed is cut and refused.
All others are loaded (`every_seed`).
-/

namespace Corrlog

open Python

/-! ## The code -/

/-- The keys of seeds, with the laws the code relies on. -/
structure SeedKeys where
  PrivateKey : Type
  /-- `Ed25519PrivateKey.from_private_bytes(data)`. -/
  fromPrivateBytes : Bytes → Option PrivateKey
  /-- `private_key.private_bytes(Encoding.Raw, PrivateFormat.Raw, NoEncryption())`. -/
  privateBytes : PrivateKey → Bytes
  exists_key : ∀ data, data.length = 32 → ∃ k, fromPrivateBytes data = some k
  privateBytes_eq : ∀ data k, fromPrivateBytes data = some k → privateBytes k = data

/-- The seed text without its prefix. -/
def unprefixed (s : PyStr) : PyStr :=
  if (lit "sk_").isPrefixOf s || (lit "priv_").isPrefixOf s || (lit "ed25519:").isPrefixOf s then
    if (lit "ed25519:").isPrefixOf s then (s.dropWhile (· ≠ .scalar ':')).drop 1
    else if (lit "priv_").isPrefixOf s then s.drop 5
    else s.drop 3
  else s

/-- The raw bytes: base64url, and hexadecimal digits if that does not give 32. -/
def decodeSeed (s : PyStr) : Bytes :=
  let raw :=
    match urlsafeB64decode (s ++ ofChars (padding s.length)) with
    | .ok raw => raw
    | .error _ => []
  if raw.length ≠ 32 then (fromHex s).getD [] else raw

variable (L : SeedKeys)

/-- `load_private_key`. -/
def loadPrivateKey (seed : PyStr) : Except PyErr L.PrivateKey :=
  let raw := decodeSeed (unprefixed (stripStr seed))
  if raw.length ≠ 32 then
    raise .ValueError "seed must decode to exactly 32 bytes (base64url or hex)"
  else
    match L.fromPrivateBytes raw with
    | some k => return k
    | none => builtinError .ValueError

/-- The two ways to write a seed: base64url without padding, and hexadecimal digits. -/
def Encodes (e : List Char) (seed : Bytes) : Prop := e = b64url seed ∨ HexOf e seed

/-- The prefixes, and none. -/
def seedPrefixes : List String := ["", "sk_", "priv_", "ed25519:"]

/-! ## Prefixes -/

theorem unprefixed_sk (s : PyStr) : unprefixed (lit "sk_" ++ s) = s := rfl

theorem unprefixed_priv (s : PyStr) : unprefixed (lit "priv_" ++ s) = s := rfl

theorem unprefixed_ed25519 (s : PyStr) : unprefixed (lit "ed25519:" ++ s) = s := rfl

theorem unprefixed_of_not {s : PyStr} (hsk : ¬ lit "sk_" <+: s) (hpriv : ¬ lit "priv_" <+: s)
    (hed : ¬ lit "ed25519:" <+: s) : unprefixed s = s := by
  rw [← List.isPrefixOf_iff_prefix, Bool.not_eq_true] at hsk hpriv hed
  rw [unprefixed, hsk, hpriv, hed]
  rfl

/-! ## Decoding -/

theorem decodeSeed_b64url {seed : Bytes} (h : seed.length = 32) :
    decodeSeed (ofChars (b64url seed)) = seed := by
  have hlen : (ofChars (b64url seed)).length % 4 ≠ 1 := by
    rw [length_ofChars, length_b64url, h]
    omega
  have hns : (ofChars (b64url seed)).mapM (fun c => ordSextet (ord c)) = some (sextets seed) := by
    rw [b64url_eq, mapM_ordSextet (sextets_lt seed)]
  rw [decodeSeed, urlsafeB64decode_eq hns (ofSextets_sextets seed) hlen]
  exact if_neg (not_not.mpr h)

/-- Read as base64url, the digits of 32 bytes are 48 bytes. -/
theorem decodeSeed_hexOf {seed : Bytes} {e : List Char} (he : HexOf e seed)
    (h : seed.length = 32) : decodeSeed (ofChars e) = seed := by
  obtain ⟨ns, hns⟩ := exists_mapM_of_hexVal he.exists_hexVal
  have hlen : (ofChars e).length = 64 := by rw [length_ofChars, he.length_eq, h]
  have hlen' : ns.length = 64 := (mapM_ordSextet_spec hns).1.trans hlen
  obtain ⟨data, hdata⟩ := exists_ofSextets ns (by omega)
  have hne : data.length ≠ 32 := by
    rw [length_ofSextets hdata, hlen']
    omega
  rw [decodeSeed, urlsafeB64decode_eq hns hdata (by omega)]
  show (if data.length ≠ 32 then (fromHex (ofChars e)).getD [] else data) = seed
  rw [if_pos hne, he.fromHex_eq, Option.getD_some]

/-- Forty characters are not enough for 32 bytes. -/
theorem decodeSeed_short {s : PyStr} (h : s.length ≤ 40) : (decodeSeed s).length ≠ 32 := by
  have hpad : (s ++ ofChars (padding s.length)).length ≤ 40 := by
    rw [List.length_append, length_ofChars, padding, List.length_replicate]
    omega
  have hhex : ((fromHex s).getD []).length ≠ 32 := by
    cases hs : fromHex s with
    | none => exact Nat.zero_ne_add_one 31
    | some data =>
        have := fromHex_length_le hs
        rw [Option.getD_some]
        omega
  rw [decodeSeed]
  cases hs : urlsafeB64decode (s ++ ofChars (padding s.length)) with
  | error e => exact hhex
  | ok raw =>
      have hraw : raw.length ≠ 32 := by
        have := urlsafeB64decode_length_le hs
        omega
      show (if raw.length ≠ 32 then (fromHex s).getD [] else raw).length ≠ 32
      rw [if_pos hraw]
      exact hhex

namespace Encodes

variable {e : List Char} {seed : Bytes}

theorem decodeSeed_eq (he : Encodes e seed) (h : seed.length = 32) :
    decodeSeed (ofChars e) = seed := by
  rcases he with rfl | he
  · exact decodeSeed_b64url h
  · exact decodeSeed_hexOf he h

theorem ne_nil (he : Encodes e seed) (h : seed.length = 32) : e ≠ [] := by
  intro hnil
  have hdecode := he.decodeSeed_eq h
  rw [hnil] at hdecode
  rw [← hdecode] at h
  cases h

/-- Both encodings use the base64 alphabet. -/
theorem exists_ordSextet (he : Encodes e seed) :
    ∀ c ∈ ofChars e, ∃ n, ordSextet (ord c) = some n := by
  rcases he with rfl | he
  · rw [b64url_eq]
    exact (mapM_ordSextet_spec (mapM_ordSextet (sextets_lt seed))).2
  · obtain ⟨ns, hns⟩ := exists_mapM_of_hexVal he.exists_hexVal
    exact (mapM_ordSextet_spec hns).2

theorem not_colon (he : Encodes e seed) : CodePoint.scalar ':' ∉ ofChars e := by
  intro h
  obtain ⟨n, hn⟩ := he.exists_ordSextet _ h
  cases hn

/-- A letter after `f` is in base64url only. -/
theorem length_of_mem (he : Encodes e seed) {c : Char} (hc : hexVal c = none)
    (h : CodePoint.scalar c ∈ ofChars e) (hseed : seed.length = 32) : (ofChars e).length = 43 := by
  rcases he with rfl | he
  · rw [length_ofChars, length_b64url, hseed]
  · obtain ⟨d, hd, hcd⟩ := List.mem_map.mp h
    cases hcd
    obtain ⟨n, hn⟩ := he.exists_hexVal c hd
    rw [hc] at hn
    cases hn

end Encodes

/-! ## Loading -/

variable {L} {seed : Bytes} {text : PyStr}

theorem loadPrivateKey_ok (h : decodeSeed (unprefixed (stripStr text)) = seed)
    (hseed : seed.length = 32) :
    ∃ k, loadPrivateKey L text = .ok k ∧ L.privateBytes k = seed := by
  obtain ⟨k, hk⟩ := L.exists_key seed hseed
  refine ⟨k, ?_, L.privateBytes_eq seed k hk⟩
  rw [loadPrivateKey, h]
  simp only [if_neg (not_not.mpr hseed), hk]
  rfl

theorem loadPrivateKey_error (h : (decodeSeed (unprefixed (stripStr text))).length ≠ 32) :
    loadPrivateKey L text =
      raise .ValueError "seed must decode to exactly 32 bytes (base64url or hex)" := by
  rw [loadPrivateKey]
  exact if_pos h

/-- A seed that is cut is too short. -/
theorem loadPrivateKey_cut {t : PyStr} (ht : unprefixed (stripStr text) = t) {n : ℕ}
    (hlen : n + t.length = 43) (hn : 3 ≤ n) {k : L.PrivateKey} : loadPrivateKey L text ≠ .ok k := by
  have hshort : t.length ≤ 40 := by omega
  rw [loadPrivateKey_error (ht ▸ decodeSeed_short hshort)]
  intro h
  cases h

theorem isSpace_of_all {s : PyStr} (h : (s.all fun c => !c.isSpace) = true) :
    ∀ c ∈ s, c.isSpace = false := by
  intro c hc
  exact Bool.not_eq_true' _ ▸ List.all_eq_true.mp h c hc

theorem stripStr_text {e : List Char} (he : Encodes e seed) (hne : e ≠ []) {p : String}
    (hp : p ∈ seedPrefixes) {ws ws' : PyStr} (hws : ∀ c ∈ ws, c.isSpace = true)
    (hws' : ∀ c ∈ ws', c.isSpace = true) :
    stripStr (ws ++ (lit p ++ ofChars e) ++ ws') = lit p ++ ofChars e := by
  have hprefix : ∀ c ∈ lit p, c.isSpace = false := by
    simp only [seedPrefixes, List.mem_cons, List.not_mem_nil, or_false] at hp
    rcases hp with rfl | rfl | rfl | rfl
    · exact fun c hc => absurd hc List.not_mem_nil
    · exact isSpace_of_all rfl
    · exact isSpace_of_all rfl
    · exact isSpace_of_all rfl
  have htext : ∀ c ∈ lit p ++ ofChars e, c.isSpace = false := by
    intro c hc
    rcases List.mem_append.mp hc with hc | hc
    · exact hprefix c hc
    · obtain ⟨n, hn⟩ := he.exists_ordSextet c hc
      exact isSpace_eq_false (ordSextet_range hn)
  rw [List.append_assoc]
  refine stripStr_append htext (fun h => hne ?_) hws hws'
  exact List.map_eq_nil_iff.mp (List.append_eq_nil_iff.mp h).2

/-- What is left without the prefix is the encoding. -/
theorem unprefixed_text {e : List Char} (he : Encodes e seed) {p : String} (hp : p ∈ seedPrefixes)
    (hcut : ¬ (p = "" ∧ (lit "sk_" <+: ofChars e ∨ lit "priv_" <+: ofChars e))) :
    unprefixed (lit p ++ ofChars e) = ofChars e := by
  simp only [seedPrefixes, List.mem_cons, List.not_mem_nil, or_false] at hp
  rcases hp with rfl | rfl | rfl | rfl
  · rw [not_and, not_or] at hcut
    obtain ⟨hsk, hpriv⟩ := hcut rfl
    refine unprefixed_of_not hsk hpriv fun ⟨t, ht⟩ => he.not_colon ?_
    have hcolon : lit "ed25519:" ++ t = ofChars e := ht
    rw [← hcolon]
    exact List.mem_append_left t (by decide)
  · exact unprefixed_sk _
  · exact unprefixed_priv _
  · exact unprefixed_ed25519 _

/-- Whatever the encoding, the prefix and the white space around: a seed is loaded, and
no other in its place, unless base64url without a prefix starts like one. -/
theorem every_seed (L : SeedKeys) {seed : Bytes} (hseed : seed.length = 32) {e : List Char}
    (he : Encodes e seed) {p : String} (hp : p ∈ seedPrefixes) {ws ws' : PyStr}
    (hws : ∀ c ∈ ws, c.isSpace = true) (hws' : ∀ c ∈ ws', c.isSpace = true) :
    (∃ k, loadPrivateKey L (ws ++ (lit p ++ ofChars e) ++ ws') = .ok k ∧ L.privateBytes k = seed) ↔
      ¬ (p = "" ∧ (lit "sk_" <+: ofChars e ∨ lit "priv_" <+: ofChars e)) := by
  have hstrip := stripStr_text he (he.ne_nil hseed) hp hws hws'
  constructor
  · intro ⟨k, hk, _⟩ ⟨hp, hcut⟩
    rw [hp] at hk hstrip
    rcases hcut with ⟨t, ht⟩ | ⟨t, ht⟩
    · have hlen := he.length_of_mem (c := 's') rfl (ht ▸ List.mem_cons_self) hseed
      rw [← ht, List.length_append] at hlen
      refine loadPrivateKey_cut (t := t) ?_ hlen (by decide) hk
      rw [hstrip, ← ht]
      exact unprefixed_sk t
    · have hlen := he.length_of_mem (c := 'p') rfl (ht ▸ List.mem_cons_self) hseed
      rw [← ht, List.length_append] at hlen
      refine loadPrivateKey_cut (t := t) ?_ hlen (by decide) hk
      rw [hstrip, ← ht]
      exact unprefixed_priv t
  · intro hcut
    refine loadPrivateKey_ok ?_ hseed
    rw [hstrip, unprefixed_text he hp hcut]
    exact he.decodeSeed_eq hseed

/-- Keys that are their seeds. -/
def rawKeys : SeedKeys where
  PrivateKey := {data : Bytes // data.length = 32}
  fromPrivateBytes data := if h : data.length = 32 then some ⟨data, h⟩ else none
  privateBytes k := k.val
  exists_key data h := ⟨⟨data, h⟩, dif_pos h⟩
  privateBytes_eq data k h := by
    split at h
    · cases h
      rfl
    · cases h

/-- The digits of a seed, after a prefix and between blanks. -/
theorem every_seed_hex :
    ∃ k, loadPrivateKey rawKeys
        (lit " " ++ (lit "sk_" ++ ofChars (hex (List.replicate 32 0x42))) ++ lit "\n") = .ok k ∧
      rawKeys.privateBytes k = List.replicate 32 0x42 := by
  refine (every_seed rawKeys List.length_replicate (Or.inr (hexOf_hex _)) (p := "sk_")
    (List.mem_cons_of_mem _ List.mem_cons_self) (List.forall_mem_singleton.mpr rfl)
    (List.forall_mem_singleton.mpr rfl)).mpr ?_
  intro h
  exact absurd h.1 (by decide)

/-- A seed whose base64url starts with `sk_`. -/
def skSeed : Bytes := 178 :: 79 :: 192 :: List.replicate 29 0

/-- It is refused. -/
theorem every_seed_sk :
    skSeed.length = 32 ∧ Encodes (b64url skSeed) skSeed ∧
      loadPrivateKey rawKeys (ofChars (b64url skSeed)) =
        raise .ValueError "seed must decode to exactly 32 bytes (base64url or hex)" := by
  refine ⟨rfl, Or.inl rfl, loadPrivateKey_error ?_⟩
  decide +kernel

end Corrlog
