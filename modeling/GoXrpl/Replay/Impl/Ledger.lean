import GoXrpl.SkipList.Impl.SkipList

/-!
This module contains the header of a ledger, and a ledger with its two maps from its construction to
its close.
-/

namespace Replay

open SHAMap (Error orWrap)

abbrev Time := Int

def rippleEpochUnix : Int := 946684800

-- seconds from the zero time to the Unix epoch
def unixEpoch : Int := 62135596800

def second : Time := 1000000000

def rippleSeconds (t : Time) : Int :=
  if t = 0 then 0 else t / second - unixEpoch - rippleEpochUnix

def toRippleTime (t : Time) : UInt32 := UInt32.ofInt (rippleSeconds t)

def fromRippleTime (seconds : UInt32) : Time :=
  (unixEpoch + rippleEpochUnix + seconds.toNat) * second

structure LedgerHeader where
  ledgerIndex : UInt32
  parentCloseTime : Time
  hash : Hash256
  txHash : Hash256
  accountHash : Hash256
  parentHash : Hash256
  drops : UInt64
  validated : Bool
  accepted : Bool
  closeFlags : UInt8
  closeTimeResolution : UInt8
  closeTime : Time
  deriving DecidableEq

def lcfNoConsensusTime : UInt8 := 0x01

namespace LedgerHeader

def getCloseAgree (h : LedgerHeader) : Bool := h.closeFlags &&& lcfNoConsensusTime = 0

def appendRawBody (h : LedgerHeader) : List UInt8 :=
  putUint32 h.ledgerIndex ++ putUint64 h.drops ++ h.parentHash.toList ++ h.txHash.toList
    ++ h.accountHash.toList ++ putUint32 (toRippleTime h.parentCloseTime)
    ++ putUint32 (toRippleTime h.closeTime) ++ [h.closeTimeResolution, h.closeFlags]

end LedgerHeader

def hashPrefixLedgerMaster : List UInt8 := [0x4C, 0x57, 0x52, 0x00]

-- `binary.BigEndian` reads
def uint32 (bytes : List UInt8) : UInt32 :=
  bytes.foldl (fun n b => n * 256 + b.toUInt32) 0

def uint64 (bytes : List UInt8) : UInt64 :=
  bytes.foldl (fun n b => n * 256 + b.toUInt64) 0

def toHash32 (bytes : List UInt8) : Option Hash256 :=
  if h : bytes.length = 32 then some ⟨bytes.toArray, by simpa using h⟩ else none

def sizeBase : Nat := 118

def slice (data : List UInt8) (start count : Nat) : List UInt8 := (data.drop start).take count

def hashAt (data : List UInt8) (start : Nat) : Hash256 :=
  (toHash32 (slice data start 32)).getD Hash256.zero

def deserializeHeader (data : List UInt8) : Except Error LedgerHeader :=
  if data.length ≠ sizeBase then
    .error (.new "invalid ledger header size")
  else
    .ok {
      ledgerIndex := uint32 (slice data 0 4)
      drops := uint64 (slice data 4 8)
      parentHash := hashAt data 12
      txHash := hashAt data 44
      accountHash := hashAt data 76
      parentCloseTime := fromRippleTime (uint32 (slice data 108 4))
      closeTime := fromRippleTime (uint32 (slice data 112 4))
      closeTimeResolution := (data[116]?).getD 0
      closeFlags := (data[117]?).getD 0
      hash := Hash256.zero
      validated := false
      accepted := false }

inductive State where
  | opened
  | closed
  | validated
  deriving DecidableEq

structure Ledger where
  stateMap : SHAMap
  txMap : SHAMap
  header : LedgerHeader
  state : State
  writable : Bool
  dropsDestroyed : Int

def snapshot (sm : SHAMap) (mutable : Bool) : Except Error SHAMap :=
  if sm.state = .invalid then
    .error (.context .errInvalidState "cannot snapshot invalid map")
  else
    .ok { sm with state := if mutable then .modifying else .immutable }

def validateMaps (stateMap txMap : SHAMap) : Except Error Unit :=
  if stateMap.mapType ≠ .state then
    .error (.new "state map has another type")
  else if txMap.mapType ≠ .transaction then
    .error (.new "transaction map has another type")
  else
    .ok ()

class Amendments where
  loadAmendments : SHAMap → Except Error Unit

namespace Ledger

section New

variable [Amendments]

def newFromHeader (hdr : LedgerHeader) (stateMap txMap : SHAMap) : Except Error Ledger := do
  validateMaps stateMap txMap
  let immutableState ← orWrap "failed to snapshot state map" (snapshot stateMap false)
  let immutableTx ← orWrap "failed to snapshot transaction map" (snapshot txMap false)
  orWrap "failed to load amendment rules" (Amendments.loadAmendments immutableState)
  return {
    stateMap := immutableState
    txMap := immutableTx
    header := hdr
    state := if hdr.validated then .validated else .closed
    writable := false
    dropsDestroyed := 0 }

def newOpenWithHeader (hdr : LedgerHeader) (stateMap txMap : SHAMap) : Except Error Ledger := do
  validateMaps stateMap txMap
  let ownedState ← orWrap "failed to snapshot state map" (snapshot stateMap true)
  let ownedTx ← orWrap "failed to snapshot transaction map" (snapshot txMap true)
  orWrap "failed to load amendment rules" (Amendments.loadAmendments ownedState)
  return {
    stateMap := ownedState
    txMap := ownedTx
    header := hdr
    state := .opened
    writable := true
    dropsDestroyed := 0 }

end New

variable [Sha512Half]

def addTransactionWithMeta (l : Ledger) (txHash : Hash256) (txData : List UInt8)
    : Except Error Ledger :=
  if l.state ≠ .opened ∨ l.writable = false then
    .error (.new "ledger is immutable")
  else
    match l.txMap.has txHash with
    | .error err => .error err
    | .ok true => .error (.new "ledger entry already exists")
    | .ok false =>
      match l.txMap.putWithNodeType txHash txData .transactionWithMeta with
      | (.error err, _) => .error err
      | (.ok (), txMap) => .ok { l with txMap }

def calculateHash (h : LedgerHeader) : Hash256 :=
  Sha512Half.sum (hashPrefixLedgerMaster ++ h.appendRawBody)

def closedHeader (l : Ledger) (accountHash txHash : Hash256) (closeTime : Time) (closeFlags : UInt8)
    : LedgerHeader :=
  let hdr := { l.header with
    drops := l.header.drops - UInt64.ofInt l.dropsDestroyed
    accountHash
    txHash
    closeTime
    closeFlags
    accepted := true }
  { hdr with hash := calculateHash hdr }

variable [SkipList.LedgerHashesCodec] [Amendments]

def close (l : Ledger) (closeTime : Time) (closeFlags : UInt8) : Except Error Ledger :=
  if l.state ≠ .opened then
    .error (.new "invalid ledger state")
  else if l.writable = false then
    .error (.new "ledger is immutable")
  else if l.dropsDestroyed < 0 ∨ (l.header.drops.toNat : Int) < l.dropsDestroyed then
    .error (.new "ledger: drops underflow")
  else do
    let stateMap ← orWrap "failed to fork state map" (snapshot l.stateMap true)
    let txMap ← orWrap "failed to fork transaction map" (snapshot l.txMap true)
    let updated := SkipList.updateOnMap stateMap l.header.ledgerIndex l.header.parentHash
    orWrap "failed to update skip list" updated.1
    orWrap "failed to load amendment rules" (Amendments.loadAmendments updated.2)
    let stateMap ← orWrap "failed to make state map immutable" (SkipList.setImmutable updated.2)
    let txMap ← orWrap "failed to make tx map immutable" (SkipList.setImmutable txMap)
    let accountHash ← orWrap "failed to get state map hash" stateMap.hash
    let txHash ← orWrap "failed to get tx map hash" txMap.hash
    return {
      stateMap
      txMap
      header := l.closedHeader accountHash txHash closeTime closeFlags
      state := .closed
      writable := false
      dropsDestroyed := l.dropsDestroyed }

end Ledger

end Replay
