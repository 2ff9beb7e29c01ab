import GoXrpl.Basic
import Mathlib.Data.List.AList
import Mathlib.Data.Finset.Card

/-!
This module contains validator manifests and the cache of the latest manifest of each master key.
-/

abbrev Manifest.PublicKey := Vector UInt8 33

structure Manifest where
  masterKey : Manifest.PublicKey
  signingKey : Manifest.PublicKey
  sequence : UInt32
  domain : List UInt8
  serialized : List UInt8
  hash : Hash256
  masterSignature : String
  signature : String
  signingPreimage : List UInt8
  deriving DecidableEq

namespace Manifest

instance PublicKey.lawfulBEq : LawfulBEq PublicKey := Vector.instLawfulBEq

inductive Value where
  | int (v : Int)
  | uint32 (v : UInt32)
  | string (s : String)
  | other
  deriving DecidableEq

abbrev Decoded := AList fun _ : String => Value

inductive KeyType where
  | ed25519
  | secp256k1
  | unknown
  deriving DecidableEq

class Codec where
  decodeBytesWithTemplate : List UInt8 → Except String Decoded
  encodeBytes : Decoded → Except String (List UInt8)
  isSigningField : String → Option Bool
  isProperlyFormedTomlDomain : List UInt8 → Bool

class Signatures where
  ed25519Validate : List UInt8 → PublicKey → String → Bool
  secp256k1Validate : List UInt8 → PublicKey → String → Bool

def revokedSequence : UInt32 := 4294967295

def maxSerializedSize : Nat := 358

def hashPrefixManifest : List UInt8 := [77, 65, 78, 0]

def revoked (m : Manifest) : Bool := m.sequence == revokedSequence

def hexDigit (c : Char) : Option UInt8 :=
  if '0' ≤ c ∧ c ≤ '9' then
    some (c.toNat - 48).toUInt8
  else if 'a' ≤ c ∧ c ≤ 'f' then
    some (c.toNat - 87).toUInt8
  else if 'A' ≤ c ∧ c ≤ 'F' then
    some (c.toNat - 55).toUInt8
  else
    none

def hexDecodeString (s : String) : Except String (List UInt8) :=
  go s.toList
where
  go : List Char → Except String (List UInt8)
    | [] => .ok []
    | hi :: lo :: rest => do
      let some hi := hexDigit hi | .error "encoding/hex: invalid byte"
      let some lo := hexDigit lo | .error "encoding/hex: invalid byte"
      return (hi * 16 + lo) :: (← go rest)
    | [c] =>
      if (hexDigit c).isNone then
        .error "encoding/hex: invalid byte"
      else
        .error "encoding/hex: odd length hex string"

def publicKeyType (pubKey : List UInt8) : KeyType :=
  if pubKey.length ≠ 33 then
    .unknown
  else
    match pubKey.headD 0 with
    | 0xED => .ed25519
    | 0x02 => .secp256k1
    | 0x03 => .secp256k1
    | _ => .unknown

def wrap {α : Type} (context : String) : Except String α → Except String α
  | .error err => .error (context ++ ": " ++ err)
  | .ok a => .ok a

def decodeKey (hexStr : String) : Except String PublicKey := do
  let b ← hexDecodeString hexStr
  if h : b.length = 33 then
    if publicKeyType b = .unknown then
      .error "unknown key type prefix"
    else
      return ⟨b.toArray, by simp [h]⟩
  else
    .error ("expected 33 bytes, got " ++ toString b.length)

def requireHexField (m : Decoded) (name : String) : Except String String :=
  match m.lookup name with
  | none => .error ("manifest: missing required " ++ name)
  | some (.string s) => .ok s
  | some _ => .error ("manifest: " ++ name ++ " is not a string")

def hasField (m : Decoded) (name : String) : Bool := (m.lookup name).isSome

def checkVersion (decoded : Decoded) : Except String Unit :=
  match decoded.lookup "Version" with
  | none => .ok ()
  | some (.int v) =>
    if v ≠ 0 then .error ("manifest: unsupported Version " ++ toString v) else .ok ()
  | some _ => .error "manifest: Version is not numeric"

def requireSequence (decoded : Decoded) : Except String UInt32 :=
  match decoded.lookup "Sequence" with
  | none => .error "manifest: missing required Sequence"
  | some (.uint32 seq) => .ok seq
  | some _ => .error "manifest: Sequence is not numeric"

section

variable [Codec]

def parseDomain (decoded : Decoded) : Except String (List UInt8) :=
  match decoded.lookup "Domain" with
  | none => .ok []
  | some (.string s) => do
    let b ← wrap "manifest: Domain not hex" (hexDecodeString s)
    if Codec.isProperlyFormedTomlDomain b then
      return b
    else
      .error "manifest: Domain is not a properly formed TOML domain"
  | some _ => .error "manifest: Domain is not a variable-length field"

def signingPreimageFromDecoded (decoded : Decoded) : Except String (List UInt8) := do
  let signed := decoded.keys.foldl
    (fun m name => if Codec.isSigningField name = some false then m.erase name else m) decoded
  let body ← Codec.encodeBytes signed
  return hashPrefixManifest ++ body

/--
The part of the parser after the fields that every manifest has.
-/
def parseEphemeral (decoded : Decoded) (m : Manifest) : Except String Manifest :=
  let hasSigningKey := hasField decoded "SigningPubKey"
  let hasSignature := hasField decoded "Signature"
  if m.revoked then
    if hasSigningKey || hasSignature then
      .error "manifest: revoked manifest must not carry ephemeral fields"
    else do
      let preimage ← wrap "manifest: build signing preimage" (signingPreimageFromDecoded decoded)
      return { m with signingPreimage := preimage }
  else if !hasSigningKey || !hasSignature then
    .error "manifest: non-revoked manifest requires SigningPubKey and Signature"
  else do
    -- the source ignores the error here and decodes the empty string
    let signingHex := (requireHexField decoded "SigningPubKey").toOption.getD ""
    let signing ← wrap "manifest: SigningPubKey" (decodeKey signingHex)
    if signing = m.masterKey then
      .error "manifest: signing key equals master key"
    else
      let signature ← requireHexField decoded "Signature"
      let preimage ← wrap "manifest: build signing preimage" (signingPreimageFromDecoded decoded)
      return { m with signingKey := signing, signature := signature, signingPreimage := preimage }

variable [Sha512Half]

def deserialize (data : List UInt8) : Except String Manifest :=
  if data.length = 0 then
    .error "manifest: empty payload"
  else if data.length > maxSerializedSize then
    .error ("manifest: payload exceeds " ++ toString maxSerializedSize ++ " bytes")
  else do
    let decoded ← wrap "manifest: decode STObject" (Codec.decodeBytesWithTemplate data)
    checkVersion decoded
    let masterHex ← requireHexField decoded "PublicKey"
    let master ← wrap "manifest: PublicKey" (decodeKey masterHex)
    let seq ← requireSequence decoded
    let masterSignature ← requireHexField decoded "MasterSignature"
    let canonical ← wrap "manifest: canonical encoding" (Codec.encodeBytes decoded)
    let domain ← parseDomain decoded
    parseEphemeral decoded
      {
        masterKey := master
        signingKey := Vector.replicate 33 0
        sequence := seq
        domain := domain
        serialized := data
        hash := Sha512Half.sum (hashPrefixManifest ++ canonical)
        masterSignature := masterSignature
        signature := ""
        signingPreimage := []
      }

end

section

variable [Signatures]

def verifyKeyTypeSignature (pubKey : PublicKey) (message : List UInt8) (sigHex : String) : Bool :=
  match publicKeyType pubKey.toList with
  | .ed25519 => Signatures.ed25519Validate message pubKey sigHex
  | .secp256k1 => Signatures.secp256k1Validate message pubKey sigHex
  | .unknown => false

def verify (m : Manifest) : Except String Unit :=
  if m.masterSignature = "" then
    .error "manifest: MasterSignature missing on verify"
  else if !m.revoked && m.signature == "" then
    .error "manifest: Signature missing on verify"
  else if !verifyKeyTypeSignature m.masterKey m.signingPreimage m.masterSignature then
    .error "manifest: master signature invalid"
  else if !m.revoked && !verifyKeyTypeSignature m.signingKey m.signingPreimage m.signature then
    .error "manifest: ephemeral signature invalid"
  else
    .ok ()

end

inductive Disposition where
  | accepted
  | stale
  | invalid
  | badMasterKey
  | badEphemeralKey
  | untrustedCapacity
  deriving DecidableEq, Repr

def defaultMaxUntrustedCount : Nat := 300

abbrev CapPolicy := UInt8

def policyCapped : CapPolicy := 0

def policyUncapped : CapPolicy := 1

structure Cache where
  byMaster : AList fun _ : PublicKey => Manifest
  untrustedMasters : Finset PublicKey
  maxUntrustedCount : Nat
  signingToMaster : AList fun _ : PublicKey => PublicKey
  seq : UInt64

namespace Cache

def newCache (maxUntrusted : Option Int) : Cache :=
  {
    byMaster := ∅
    untrustedMasters := ∅
    maxUntrustedCount :=
      match maxUntrusted with
      | none => defaultMaxUntrustedCount
      | some capacity => capacity.toNat
    signingToMaster := ∅
    seq := 0
  }

def overCapacity (c : Cache) (masterKey : PublicKey) (capped : Bool) : Bool :=
  capped && (c.byMaster.lookup masterKey).isNone
    && decide (c.maxUntrustedCount ≤ c.untrustedMasters.card)

def isStale (c : Cache) (m : Manifest) : Bool :=
  match c.byMaster.lookup m.masterKey with
  | none => false
  | some existing => decide (m.sequence ≤ existing.sequence)

def store (c : Cache) (m : Manifest) (capped : Bool) : Cache :=
  let prev := c.byMaster.lookup m.masterKey
  let signingToMaster :=
    match prev with
    | some prev => if prev.revoked then c.signingToMaster else c.signingToMaster.erase prev.signingKey
    | none => c.signingToMaster
  {
    byMaster := c.byMaster.insert m.masterKey m
    untrustedMasters :=
      if prev.isNone && capped then
        insert m.masterKey c.untrustedMasters
      else if prev.isSome && !capped then
        c.untrustedMasters.erase m.masterKey
      else
        c.untrustedMasters
    maxUntrustedCount := c.maxUntrustedCount
    signingToMaster :=
      if m.revoked then signingToMaster else signingToMaster.insert m.signingKey m.masterKey
    seq := c.seq + 1
  }

def applyLocked (c : Cache) (m : Manifest) (capped : Bool) : Disposition × Cache :=
  if c.overCapacity m.masterKey capped then
    (.untrustedCapacity, c)
  else if c.isStale m then
    (.stale, c)
  else if (c.signingToMaster.lookup m.masterKey).isSome then
    (.badMasterKey, c)
  else if !m.revoked && (c.signingToMaster.lookup m.signingKey).isSome then
    (.badEphemeralKey, c)
  else if !m.revoked && (c.byMaster.lookup m.signingKey).isSome then
    (.badEphemeralKey, c)
  else
    (.accepted, c.store m capped)

def promoteToTrusted (c : Cache) (masterKey : PublicKey) : Cache :=
  { c with untrustedMasters := c.untrustedMasters.erase masterKey }

def current (c : Cache) (masterKey : PublicKey) : Option Manifest :=
  match c.byMaster.lookup masterKey with
  | none => none
  | some m => if m.revoked then none else some m

def getSigningKey (c : Cache) (masterKey : PublicKey) : Option PublicKey :=
  (c.current masterKey).map Manifest.signingKey

def withCurrent (c : Cache) (masterKey signingKey : PublicKey) (sequence : UInt32) : Bool :=
  match c.current masterKey with
  | none => false
  | some m => m.sequence == sequence && decide (m.signingKey = signingKey)

def isRevoked (c : Cache) (masterKey : PublicKey) : Bool :=
  match c.byMaster.lookup masterKey with
  | none => false
  | some m => m.revoked

section

variable [Codec] [Signatures] [Sha512Half]

inductive Phase where
  | checkCapacity (m : Manifest) (capped : Bool)
  | deserialize (m : Manifest) (capped : Bool)
  | checkStale (owned : Manifest) (capped : Bool)
  | verify (owned : Manifest) (capped : Bool)
  | applyLocked (owned : Manifest) (capped : Bool)

def advance (c : Cache) : Phase → (Phase ⊕ Disposition) × Cache
  | .checkCapacity m capped =>
    if c.overCapacity m.masterKey capped then
      (.inr .untrustedCapacity, c)
    else
      (.inl (.deserialize m capped), c)
  | .deserialize m capped =>
    match Manifest.deserialize m.serialized with
    | .error _ => (.inr .invalid, c)
    | .ok owned => (.inl (.checkStale owned capped), c)
  | .checkStale owned capped =>
    if c.isStale owned then (.inr .stale, c) else (.inl (.verify owned capped), c)
  | .verify owned capped =>
    match owned.verify with
    | .error _ => (.inr .invalid, c)
    | .ok () => (.inl (.applyLocked owned capped), c)
  | .applyLocked owned capped =>
    match c.applyLocked owned capped with
    | (disp, c) => (.inr disp, c)

def isCapped (policies : List CapPolicy) : Bool := policies.headD policyCapped != policyUncapped

def applyManifest (c : Cache) (m : Option Manifest) (policies : List CapPolicy)
    : Disposition × Cache :=
  match m with
  | none => (.invalid, c)
  | some m =>
    let capped := isCapped policies
    if c.overCapacity m.masterKey capped then
      (.untrustedCapacity, c)
    else
      match Manifest.deserialize m.serialized with
      | .error _ => (.invalid, c)
      | .ok owned =>
        if c.isStale owned then
          (.stale, c)
        else
          match owned.verify with
          | .error _ => (.invalid, c)
          | .ok () => c.applyLocked owned capped

end

end Cache

end Manifest
