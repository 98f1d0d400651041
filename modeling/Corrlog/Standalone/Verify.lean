import Corrlog.Core.Chain

/-!
# The standalone verifier

`verify_record` and `verify_chain` of the offline verifier.  It shares the schema
with the core and nothing else: integers are rewritten to floats, and the bytes
are those of `rfc8785.dumps`, a parameter here.
-/

namespace Corrlog.Standalone

open Python
open Binary64 (ofInt)
open JsonSchema (valid)

variable (P : Platform) (dumps : PyValue → Except PyErr Bytes)

/-! ## The code -/

mutual

/-- `_to_double_domain`. -/
def toDoubleDomain : PyValue → Except PyErr PyValue
  | .int n =>
      if (ofInt n).isFinite then .ok (.float (ofInt n))
      else raise .ValueError "integer outside the IEEE 754 double range"
  | .dict items => (toDoubleItems items).map .dict
  | .list xs => (toDoubleList xs).map .list
  | .tuple xs => (toDoubleList xs).map .list
  | v => .ok v

/-- `_to_double_domain` of the elements of a list. -/
def toDoubleList : List PyValue → Except PyErr (List PyValue)
  | [] => .ok []
  | x :: xs => do
      let y ← toDoubleDomain x
      let ys ← toDoubleList xs
      return y :: ys

/-- `_to_double_domain` of the values of a dict. -/
def toDoubleItems : Items → Except PyErr Items
  | [] => .ok []
  | (k, v) :: items => do
      let w ← toDoubleDomain v
      let items' ← toDoubleItems items
      return (k, w) :: items'

end

/-- `canonical_bytes`. -/
def canonicalBytes (obj : PyValue) : Except PyErr Bytes := toDoubleDomain obj >>= dumps

/-- `base64.urlsafe_b64encode(raw).decode().rstrip('=')`. -/
def unpadded (raw : Bytes) : List Char := (urlsafeB64encode raw).rdropWhile (· = '=')

/-- `_b64url_decode`. -/
def b64urlDecode (value : PyValue) (length : Option ℕ) : Except PyErr Bytes :=
  match value with
  | .str s => do
      let raw ← b64decode (s ++ ofChars (padding s.length))
      if ofChars (unpadded raw) ≠ s ∨ length.any (raw.length ≠ ·) then
        raise .ValueError "invalid base64url"
      else return raw
  | _ => builtinError .TypeError

/-- `_digest`. -/
def digest (record : PyValue) : Except PyErr PyValue :=
  (canonicalBytes dumps record).map fun data => .str (ofChars (unpadded (P.sha256 data)))

/-- The signature check at the end of `verify_record`. -/
def checkSignature (record signature : PyValue) (key : P.PublicKey) (reason : String) :
    Except PyErr (Bool × String) := do
  let blank ← signature.setItem "sig" (.str [])
  let payload ← record.setItem "signature" blank
  let sig ← signature.getItem "sig"
  let raw ← b64urlDecode sig (some 64)
  let data ← canonicalBytes dumps payload
  if P.verify key raw data then return (true, reason)
  else builtinError .InvalidSignature

/-- The body of the `try` in `verify_record`. -/
def verifyRecordBody (record : PyValue) (pinnedPub : Option P.PublicKey) :
    Except PyErr (Bool × String) :=
  if valid P.isDateTime acrV1 record then do
    let signature ← record.getItem "signature"
    let encoded ← signature.getItem "publicKey"
    let raw ← b64urlDecode encoded (some 32)
    let agent ← record.getItem "agent"
    let agentKey ← agent.getMethod "publicKey" encoded
    if !agentKey.pyEq encoded then return (false, "agent key mismatch")
    else
      match pinnedPub with
      | some key =>
          if P.publicBytes key ≠ raw then return (false, "untrusted signer")
          else checkSignature P dumps record signature key "valid under pinned key"
      | none =>
          match P.fromPublicBytes raw with
          | some key =>
              checkSignature P dumps record signature key
                "signature consistency only; signer untrusted"
          | none => builtinError .ValueError
  else builtinError .ValidationError

/-- `verify_record`. -/
def verifyRecord (record : PyValue) (pinnedPub : Option P.PublicKey) : Bool × String :=
  match verifyRecordBody P dumps record pinnedPub with
  | .ok r => r
  | .error _ => (false, "invalid record, schema, key or signature")

/-- What is wrong with the link of a record to the one before it. -/
def linkFault (previous : Option PyValue) (record : PyValue) : Except PyErr (Option String) :=
  match previous with
  | none =>
      (record.contains "supersedes").map fun b => if b then some "missing genesis" else none
  | some previous => do
      let sup ← record.getMethod "supersedes" (.dict [])
      let receiptId ← sup.getMethod "receiptId" .none
      let id ← previous.getItem "correctionId"
      if !receiptId.pyEq id then return some "broken link"
      else
        let supDigest ← sup.getMethod "digest" .none
        let digest ← digest P dumps previous
        if !supDigest.pyEq (dictOf [("alg", .str (lit "sha256")), ("digest", digest)]) then
          return some "broken link"
        else return none

/-- The loop of `verify_chain`: the first fault. -/
def chainFault (pinnedPub : Option P.PublicKey) :
    Option PyValue → List PyValue → List PyValue → Except PyErr (Option String)
  | _, _, [] => .ok none
  | previous, identifiers, record :: records =>
      match verifyRecord P dumps record pinnedPub with
      | (false, reason) => .ok (some reason)
      | (true, _) => do
          let id ← record.getItem "correctionId"
          if identifiers.any id.pyEq then return some "duplicate ID"
          else
            match ← linkFault P dumps previous record with
            | some reason => return some reason
            | none => chainFault pinnedPub (some record) (id :: identifiers) records

/-- The comparison of a checkpoint with the dict of the records. -/
def expectedFault (records : List PyValue) (checkpoint : PyValue) : Except PyErr (Option String) :=
  match records.head?, records.getLast? with
  | some first, some last => do
      let genesis ← digest P dumps first
      let head ← digest P dumps last
      if !checkpoint.pyEq
          (dictOf [("length", .int records.length), ("genesis", genesis), ("head", head)]) then
        return some "checkpoint mismatch"
      else return none
  | _, _ => builtinError .IndexError

/-- The checkpoint check of `verify_chain`. -/
def checkpointFault (records : List PyValue) (pinnedPub : Option P.PublicKey)
    (checkpoint : PyValue) : Except PyErr (Option String) :=
  match checkpoint with
  | .none => .ok none
  | _ =>
      if pinnedPub.isNone || !checkpoint.isDict then
        .ok (some "checkpoint requires trusted key and integer length")
      else do
        let length ← checkpoint.getMethod "length" .none
        if !isInt length then return some "checkpoint requires trusted key and integer length"
        else expectedFault P dumps records checkpoint

/-- The body of the `try` in `verify_chain`: the fault found. -/
def verifyChainBody (records : PyValue) (pinnedPub : Option P.PublicKey) (checkpoint : PyValue) :
    Except PyErr (Option String) :=
  match records with
  | .list (record :: rs) => do
      match ← chainFault P dumps pinnedPub none [] (record :: rs) with
      | some reason => return some reason
      | none => checkpointFault P dumps (record :: rs) pinnedPub checkpoint
  | _ => .ok (some "empty or malformed chain")

/-- `verify_chain`. -/
def verifyChain (records : PyValue) (pinnedPub : Option P.PublicKey) (checkpoint : PyValue) :
    Bool × String :=
  match verifyChainBody P dumps records pinnedPub checkpoint with
  | .ok none =>
      (true, "consistent chain; completeness only relative to supplied trusted checkpoint")
  | .ok (some reason) => (false, reason)
  | .error _ => (false, "malformed chain")

end Corrlog.Standalone
