import Corrlog.Core.Schema
import Mathlib.Data.List.DropRight

/-!
# Keys, digests and base64url

`Platform` is what the code imports: Ed25519, SHA-256, the `date-time` check of
the schema validator and `repr`.  What is known of it is that raw public keys
have 32 bytes and are read back as the key, and that signatures have 64 bytes.

Keys, signatures and digests are written as base64url without padding.
`decodeExact` reads back exactly what is written (`decodeExact_eq_ok`), although
the decoder under it accepts more.
-/

namespace Corrlog

open Python

/-! ## What the code imports -/

/-- The imported functions, with the laws the code relies on. -/
structure Platform where
  PrivateKey : Type
  PublicKey : Type
  /-- `private_key.public_key()`. -/
  publicKey : PrivateKey → PublicKey
  /-- `public_key.public_bytes(Encoding.Raw, PublicFormat.Raw)`. -/
  publicBytes : PublicKey → Bytes
  /-- `Ed25519PublicKey.from_public_bytes(data)`. -/
  fromPublicBytes : Bytes → Option PublicKey
  /-- `private_key.sign(data)`. -/
  sign : PrivateKey → Bytes → Bytes
  /-- `public_key.verify(signature, data)` does not raise. -/
  verify : PublicKey → Bytes → Bytes → Bool
  /-- `hashlib.sha256(data).digest()`. -/
  sha256 : Bytes → Bytes
  /-- The format checker on a `date-time`. -/
  isDateTime : PyStr → Bool
  /-- `repr(v)`, absent if that raises. -/
  repr : PyValue → Option PyStr
  length_publicBytes : ∀ k, (publicBytes k).length = 32
  length_sign : ∀ k data, (sign k data).length = 64
  fromPublicBytes_iff : ∀ data k, fromPublicBytes data = some k ↔ publicBytes k = data

variable (P : Platform)

theorem Platform.publicBytes_injective : Function.Injective P.publicBytes := fun k k' h => by
  have hk := (P.fromPublicBytes_iff _ k).mpr h
  rw [(P.fromPublicBytes_iff _ k').mpr rfl] at hk
  exact (Option.some.inj hk).symm

/-! ## base64url -/

/-- `_b64url`. -/
def b64url (data : Bytes) : List Char := (urlsafeB64encode data).rdropWhile (· = '=')

theorem rdropWhile_replicate {l : List Char} (h : '=' ∉ l) (n : ℕ) :
    (l ++ List.replicate n '=').rdropWhile (· = '=') = l := by
  induction n with
  | zero =>
      rw [List.replicate_zero, List.append_nil, List.rdropWhile_eq_self_iff]
      intro hl heq
      exact h (of_decide_eq_true heq ▸ List.getLast_mem hl)
  | succ n ih =>
      rw [List.replicate_succ', ← List.append_assoc, List.rdropWhile_concat_pos _ _ _ (by simp), ih]

/-- The padding is dropped, and there is no other. -/
theorem b64url_eq (data : Bytes) : b64url data = (sextets data).map sextetChar :=
  rdropWhile_replicate (pad_not_mem_sextets data) _

/-- The length of an encoding depends on that of the data only. -/
theorem length_b64url (data : Bytes) : (b64url data).length = (data.length * 4 + 2) / 3 := by
  rw [b64url_eq, List.length_map, length_sextets]

/-- The padding is what `_b64url` strips. -/
theorem b64url_append_padding (data : Bytes) :
    b64url data ++ padding (b64url data).length = urlsafeB64encode data := by
  rw [urlsafeB64encode, b64url_eq, List.length_map]

/-- `_decode_exact`. -/
def decodeExact (value : PyValue) (size : ℕ) : Except PyErr Bytes :=
  match value with
  | .str s => do
      let raw ← b64decode (s ++ ofChars (padding s.length))
      if raw.length ≠ size ∨ ofChars (b64url raw) ≠ s then
        raise .ValueError "invalid length or noncanonical base64url"
      else return raw
  | _ => raise .ValueError "expected unpadded base64url string"

/-- Of all texts the decoder accepts, only the one that is written passes. -/
theorem decodeExact_eq_ok {value : PyValue} {size : ℕ} {raw : Bytes} :
    decodeExact value size = .ok raw ↔
      raw.length = size ∧ value = .str (ofChars (b64url raw)) := by
  constructor
  · intro h
    cases value with
    | str s =>
        obtain ⟨data, _, h⟩ := bind_eq_ok.mp h
        split at h
        next => cases h
        next hn =>
          cases h
          rw [not_or, not_not, not_not] at hn
          exact ⟨hn.1, by rw [hn.2]⟩
    | none => cases h
    | bool b => cases h
    | int n => cases h
    | float x => cases h
    | list xs => cases h
    | tuple xs => cases h
    | dict items => cases h
    | other o => cases h
  · rintro ⟨rfl, rfl⟩
    rw [decodeExact, length_ofChars, ← ofChars_append, b64url_append_padding]
    refine bind_eq_ok.mpr ⟨raw, b64decode_encode raw, ?_⟩
    rw [if_neg (by simp)]
    rfl

/-- An encoding determines the data. -/
theorem b64url_injective : Function.Injective b64url := fun a b h => by
  have ha := b64decode_encode a
  rw [← b64url_append_padding, h, b64url_append_padding, b64decode_encode] at ha
  exact (Except.ok.inj ha).symm

/-! ## Keys -/

/-- `public_key_b64url`. -/
def publicKeyB64url (k : P.PublicKey) : List Char := b64url (P.publicBytes k)

/-- `load_public_key`. -/
def loadPublicKey (value : PyValue) : Except PyErr P.PublicKey := do
  let raw ← decodeExact value 32
  match P.fromPublicBytes raw with
  | some k => return k
  | none => builtinError .ValueError

/-- A key is loaded from its own text only. -/
theorem loadPublicKey_eq_ok {value : PyValue} {k : P.PublicKey} :
    loadPublicKey P value = .ok k ↔ value = .str (ofChars (publicKeyB64url P k)) := by
  rw [loadPublicKey, bind_eq_ok]
  constructor
  · rintro ⟨raw, hraw, h⟩
    obtain ⟨_, rfl⟩ := decodeExact_eq_ok.mp hraw
    cases hk : P.fromPublicBytes raw with
    | none => rw [hk] at h; cases h
    | some k' =>
        rw [hk] at h
        cases h
        rw [publicKeyB64url, (P.fromPublicBytes_iff _ _).mp hk]
  · rintro rfl
    refine ⟨P.publicBytes k, decodeExact_eq_ok.mpr ⟨P.length_publicBytes k, rfl⟩, ?_⟩
    rw [(P.fromPublicBytes_iff _ k).mpr rfl]
    rfl

/-! ## Digests -/

/-- `_hash_object`. -/
def hashObject (data : Bytes) : PyValue :=
  dictOf [("alg", .str (lit "sha256")), ("digest", .str (ofChars (b64url (P.sha256 data))))]

theorem hashObject_wf (data : Bytes) : (hashObject P data).WF := by
  rw [hashObject, dictOf, PyValue.wf_members]
  simp

/-- A digest can be written as JSON. -/
theorem hashObject_jsonAble (data : Bytes) : (hashObject P data).JsonAble := by
  rw [hashObject, dictOf, PyValue.jsonAble_members]
  simp

theorem hashObject_getItem (data : Bytes) :
    (hashObject P data).getItem "digest" = .ok (.str (ofChars (b64url (P.sha256 data)))) :=
  PyValue.getItem_eq_ok.mpr ⟨_, rfl, by rw [getStr_members]; rfl⟩

/-- A digest object is compared as a JSON value. -/
theorem pyEq_hashObject_iff {v : PyValue} (hv : v.WF) {data : Bytes} :
    v.pyEq (hashObject P data) = true ↔ PyValue.Same v (hashObject P data) := by
  refine PyValue.pyEq_dict_iff hv (hashObject_wf P data) ?_
  rw [forall_mem_members]
  simp

/-- Digest objects are the same only for equal digests. -/
theorem sha256_eq_of_same {data data' : Bytes}
    (h : PyValue.Same (hashObject P data) (hashObject P data')) :
      P.sha256 data = P.sha256 data' := by
  obtain ⟨items, he, hd⟩ := PyValue.getItem_eq_ok.mp (hashObject_getItem P data)
  obtain ⟨items', he', hd'⟩ := PyValue.getItem_eq_ok.mp (hashObject_getItem P data')
  have hwf := hashObject_wf P data'
  rw [he'] at hwf
  rw [he, he'] at h
  obtain ⟨w, hw, hs⟩ := PyValue.exists_getStr_of_same hwf h hd
  rw [hd', Option.some.injEq] at hw
  subst hw
  exact b64url_injective (ofChars_injective (PyValue.str.inj (PyValue.eq_of_same_str hs)))

end Corrlog
