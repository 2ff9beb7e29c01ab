import GoXrpl.Keylet.Impl.Keylet
import GoXrpl.SHAMap.Impl.Mutation

/-!
This module contains the lists of ancestor hashes in the state map of a ledger: one of the last 256
ledgers, and one for each 65536 ledgers with the hash of every 256th of them.
-/

open State

namespace SkipList

structure LedgerHashesFields where
  flags : UInt32
  firstLedgerSequence : Option UInt32
  lastLedgerSequence : Option UInt32
  sponsor : Option (List UInt8)
  deriving DecidableEq

class LedgerHashesCodec where
  decodeLedgerHashes : List UInt8 → Option (LedgerHashesFields × List Hash256)
  encodeEntry : LedgerHashesFields → List Hash256 → Option (List UInt8)

abbrev Error := SHAMap.Error

def assertSkipListConsistent (hashes : List Hash256) (lastSeq prevIndex : UInt32)
    : Except Error Unit :=
  if hashes.length = 0 ∧ lastSeq = 0 then
    .ok ()
  else if lastSeq ≠ prevIndex - 1 then
    .error (.new "existing LastLedgerSequence, want prevIndex-1")
  else if hashes.length ≠ min (prevIndex - 1).toNat 256 then
    .error (.new "existing Hashes length")
  else
    .ok ()

def assertHistoricalSkipListConsistent (hashes : List Hash256) (lastSeq prevIndex : UInt32)
    : Except Error Unit :=
  if hashes.length = 0 ∧ lastSeq = 0 then
    .ok ()
  else if hashes.length > 256 then
    .error (.new "existing Hashes length exceeds 256")
  else if lastSeq ≠ prevIndex - 256 then
    .error (.new "existing LastLedgerSequence, want prevIndex-256")
  else
    let offset := prevIndex &&& 0xffff
    let wantLen : Int :=
      if prevIndex >>> 16 ≠ 0 then (offset >>> 8).toNat
      else if offset ≠ 0 then (offset >>> 8).toNat - 1
      else 0
    if hashes.length ≠ wantLen then
      .error (.new "existing Hashes length for historical page")
    else
      .ok ()

variable [LedgerHashesCodec]

def encode (fields : Option LedgerHashesFields) (hashes : List Hash256) (lastSeq : UInt32)
    : Except Error (List UInt8) :=
  let entry : LedgerHashesFields := {
    flags := fields.elim 0 (·.flags)
    firstLedgerSequence := fields.bind (·.firstLedgerSequence)
    lastLedgerSequence := some lastSeq
    sponsor := fields.bind (·.sponsor) }
  (LedgerHashesCodec.encodeEntry entry hashes).elim (.error (.new "encode LedgerHashes")) .ok

variable [Sha512Half]

def checkLedgerHashes (fields : LedgerHashesFields) (hashes : List Hash256)
    : Except Error (Option LedgerHashesFields × List Hash256 × UInt32) :=
  fields.lastLedgerSequence.elim (.error (.new "LedgerHashes missing LastLedgerSequence"))
    fun last =>
      if hashes.length = 0 ∨ hashes.length > 256 then
        .error (.new "LedgerHashes has invalid Hashes cardinality")
      else if fields.firstLedgerSequence.any fun first => first = 0 ∨ first > last then
        .error (.new "LedgerHashes has invalid FirstLedgerSequence")
      else
        .ok (some fields, hashes, last)

def readLedgerHashesSLE (stateMap : SHAMap) (key : Hash256)
    : Except Error (Option LedgerHashesFields × List Hash256 × UInt32) := do
  let item ← stateMap.get key
  item.elim (.ok (none, [], 0)) fun item =>
    (LedgerHashesCodec.decodeLedgerHashes item.data).elim (.error (.new "decode LedgerHashes"))
      fun decoded => checkLedgerHashes decoded.1 decoded.2

def appendHistorical (stateMap : SHAMap) (prevIndex : UInt32) (parentHash : Hash256)
    : Except Error SHAMap.Item := do
  let histKey := Keylet.ledgerHashesForSeq prevIndex
  let (fields, hashes, lastSeq) ←
    SHAMap.orWrap "read historical skip list" (readLedgerHashesSLE stateMap histKey.key)
  SHAMap.orWrap "historical LedgerHashes" (assertHistoricalSkipListConsistent hashes lastSeq prevIndex)
  let data ← SHAMap.orWrap "encode historical skip list" (encode fields (hashes ++ [parentHash]) prevIndex)
  return { key := histKey.key, data }

def appendRolling (stateMap : SHAMap) (prevIndex : UInt32) (parentHash : Hash256)
    : Except Error SHAMap.Item := do
  let rollingKey := Keylet.ledgerHashes
  let (fields, hashes, lastSeq) ←
    SHAMap.orWrap "read rolling skip list" (readLedgerHashesSLE stateMap rollingKey.key)
  SHAMap.orWrap "rolling LedgerHashes" (assertSkipListConsistent hashes lastSeq prevIndex)
  let hashes := if hashes.length ≥ 256 then hashes.tail else hashes
  let data ← SHAMap.orWrap "encode rolling skip list" (encode fields (hashes ++ [parentHash]) prevIndex)
  return { key := rollingKey.key, data }

def skipListWrites (stateMap : SHAMap) (prevIndex : UInt32) (parentHash : Hash256)
    : Except Error (List (Option SHAMap.Item)) := do
  let historical ←
    if prevIndex &&& 0xff = 0 then do
      let item ← appendHistorical stateMap prevIndex parentHash
      pure [some item]
    else
      pure []
  let rolling ← appendRolling stateMap prevIndex parentHash
  return historical ++ [some rolling]

def updateOnMap (stateMap : SHAMap) (ledgerSeq : UInt32) (parentHash : Hash256)
    : Except Error Unit × SHAMap :=
  -- Neither a ledger without a number nor the first one has a parent to record.
  if ledgerSeq = 0 ∨ ledgerSeq - 1 = 0 then
    (.ok (), stateMap)
  else
    match skipListWrites stateMap (ledgerSeq - 1) parentHash with
    | .error err => (.error err, stateMap)
    | .ok writes =>
      let written := stateMap.putItemsAtomically writes
      (SHAMap.orWrap "write skip lists" written.1, written.2)

structure ClosedLedger where
  ledgerIndex : UInt32
  hash : Hash256
  parentHash : Hash256
  stateMap : SHAMap

def setImmutable (sm : SHAMap) : Except Error SHAMap :=
  if sm.state = .invalid then
    .error (.new "cannot set invalid map to immutable")
  else
    .ok { sm with state := .immutable }

/--
The part of `Close` about the fork of the state map.
-/
def close (stateMap : SHAMap) (ledgerIndex : UInt32) (parentHash hash : Hash256)
    : Except Error ClosedLedger := do
  let updated := updateOnMap stateMap ledgerIndex parentHash
  SHAMap.orWrap "failed to update skip list" updated.1
  let closed ← SHAMap.orWrap "failed to make state map immutable" (setImmutable updated.2)
  return { ledgerIndex, hash, parentHash, stateMap := closed }

def hashAt (hashes : List Hash256) (i : UInt32) : Except Error (Option Hash256) :=
  hashes[i.toNat]?.elim (.error (.new "index out of range")) fun hash => .ok (some hash)

def historicalHashOfSeq (stateMap : SHAMap) (seq : UInt32) : Except Error (Option Hash256) := do
  if seq &&& 0xff ≠ 0 then
    return none
  else
    let (_, histHashes, lastSeq) ←
      readLedgerHashesSLE stateMap (Keylet.ledgerHashesForSeq seq).key
    if histHashes.length = 0 then
      return none
    else if lastSeq &&& 0xff ≠ 0 ∨ lastSeq >>> 16 ≠ seq >>> 16 then
      throw (.new "historical LedgerHashes has invalid last sequence")
    else
      let firstSeq := (lastSeq >>> 16) <<< 16
      let firstSeq := if firstSeq = 0 then 256 else firstSeq
      if histHashes.length ≠ ((lastSeq - firstSeq) >>> 8).toNat + 1 then
        throw (.new "historical LedgerHashes cardinality")
      else if seq ≥ firstSeq ∧ seq ≤ lastSeq then
        hashAt histHashes ((seq - firstSeq) >>> 8)
      else
        return none

def ClosedLedger.hashOfSeq (l : ClosedLedger) (seq : UInt32) : Except Error (Option Hash256) := do
  let lseq := l.ledgerIndex
  if seq = 0 ∨ seq > lseq then
    return none
  else if seq = lseq then
    return some l.hash
  else if seq = lseq - 1 then
    return some l.parentHash
  else
    let (_, hashes, lastSeq) ← readLedgerHashesSLE l.stateMap Keylet.ledgerHashes.key
    if hashes.length ≠ 0 then
      if lseq = 0 ∨ lastSeq ≠ lseq - 1 then
        throw (.new "rolling LedgerHashes ends elsewhere")
      else if hashes.length ≠ min lastSeq.toNat 256 then
        throw (.new "rolling LedgerHashes cardinality")
      else
        let firstSeq := lastSeq - UInt32.ofNat hashes.length + 1
        if seq ≥ firstSeq ∧ seq ≤ lastSeq then
          hashAt hashes (seq - firstSeq)
        else
          historicalHashOfSeq l.stateMap seq
    else
      historicalHashOfSeq l.stateMap seq

end SkipList
