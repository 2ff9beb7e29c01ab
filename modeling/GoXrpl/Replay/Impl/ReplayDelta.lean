import GoXrpl.Disputes.Impl.Tracker
import GoXrpl.Replay.Impl.Ledger

/-!
This module contains the acquisition of a ledger by the transactions that lead to it from its
parent: the check of the response of a peer, the replay of the transactions, and the acquisitions in
flight.
-/

namespace Replay

open SHAMap (Error orWrap)
open Disputes (computeTxID)

structure ReplayDeltaResponse where
  ledgerHash : List UInt8
  ledgerHeader : List UInt8
  transactions : List (List UInt8)
  hasError : Bool

structure DecodedTx where
  index : UInt32
  hash : Hash256
  txBytes : List UInt8
  metaBytes : List UInt8
  leafBlob : List UInt8

def ledgerPossibleTimeResolutions : List UInt32 := [10, 20, 30, 60, 90, 120]

def increaseLedgerTimeResolutionEvery : UInt32 := 8

def decreaseLedgerTimeResolutionEvery : UInt32 := 1

def getNextLedgerTimeResolution (parentResolution : UInt32) (previousAgree : Bool)
    (newLedgerSeq : UInt32) : UInt32 :=
  if newLedgerSeq = 0 then
    parentResolution
  else
    match ledgerPossibleTimeResolutions.findIdx? (· = parentResolution) with
    | none => parentResolution
    | some idx =>
      if previousAgree = false ∧ newLedgerSeq % decreaseLedgerTimeResolutionEvery = 0
          ∧ idx + 1 < ledgerPossibleTimeResolutions.length then
        (ledgerPossibleTimeResolutions[idx + 1]?).getD parentResolution
      else if previousAgree = true ∧ newLedgerSeq % increaseLedgerTimeResolutionEvery = 0
          ∧ 0 < idx then
        (ledgerPossibleTimeResolutions[idx - 1]?).getD parentResolution
      else
        parentResolution

def applicationViewCloseTime (parentCloseTime proposedCloseTime : Time) (resolution : UInt32) : Time :=
  if resolution = 0 then
    proposedCloseTime
  else
    let parent := toRippleTime parentCloseTime
    if parent ≠ 0 then
      fromRippleTime (parent + resolution)
    else
      let seconds := toRippleTime proposedCloseTime + resolution / 2
      fromRippleTime (seconds - seconds % resolution)

def errParserOutOfBound : Error := .new "Parser out of bound"

def readBytes (n : Nat) (data : List UInt8) : Except Error (List UInt8 × List UInt8) :=
  if data.length < n then .error errParserOutOfBound else .ok (data.take n, data.drop n)

def readVariableLength : List UInt8 → Except Error (Nat × List UInt8)
  | [] => .error errParserOutOfBound
  | b1 :: data =>
    if b1 ≤ 192 then
      .ok (b1.toNat, data)
    else if b1 ≤ 240 then
      match data with
      | b2 :: data => .ok (193 + (b1.toNat - 193) * 256 + b2.toNat, data)
      | _ => .error errParserOutOfBound
    else if b1 ≤ 254 then
      match data with
      | b2 :: b3 :: data =>
        let length := 12481 + (b1.toNat - 241) * 65536 + b2.toNat * 256 + b3.toNat
        if length > 918744 then
          .error (.new "variable length too long")
        else
          .ok (length, data)
      | _ => .error errParserOutOfBound
    else
      .error (.new "invalid variable length prefix")

def splitTxWithMetaBlob (blob : List UInt8) : Except Error (List UInt8 × List UInt8) :=
  if blob.length = 0 then
    .error (.new "empty blob")
  else do
    let (txLen, data) ← orWrap "read tx VL" (readVariableLength blob)
    let (txBytes, data) ← orWrap "read tx bytes" (readBytes txLen data)
    if data.length = 0 then
      throw (.new "missing metadata VL")
    let (metaLen, data) ← orWrap "read meta VL" (readVariableLength data)
    let (metaBytes, _) ← orWrap "read meta bytes" (readBytes metaLen data)
    return (txBytes, metaBytes)

structure ApplyResult (Tx Metadata : Type) where
  isApplied : Bool
  metadata : Option Metadata
  appliedInnerTransactions : List (Tx × Option Metadata)

structure Written where
  stateMap : SHAMap
  dropsDestroyed : Int

class Engine (Tx Metadata EngineState : outParam Type) where
  newEngine : Ledger → EngineState
  parseFromBinary : List UInt8 → Option Tx
  isInnerBatch : Tx → Bool
  isPseudoTransaction : Tx → Bool
  computeTransactionHash : Tx → Option Hash256
  applyPseudo : EngineState → Ledger → Tx →
    Option (ApplyResult Tx Metadata × EngineState × Written)
  apply : EngineState → Ledger → Tx → Option (ApplyResult Tx Metadata × EngineState × Written)
  applyBatchInnerTransactions : EngineState → Ledger → Tx → ApplyResult Tx Metadata →
    Option (ApplyResult Tx Metadata × EngineState × Written)
  serializeMetadata : Option Metadata → Option (List UInt8)
  transactionIndex : Metadata → UInt32
  transactionIndexFromMetadata : List UInt8 → Option UInt32
  updateNegativeUNL : SHAMap → UInt32 → Except Error SHAMap

inductive ReplayState where
  | wantBase
  | replayReady
  | complete
  | failed
  deriving DecidableEq

structure ReplayDelta where
  hash : Hash256
  peerID : Nat
  parent : Option Ledger
  state : ReplayState
  err : Option Error
  result : Option Ledger
  derived : Option Ledger
  txs : List DecodedTx
  triedPeers : List Nat

def newReplayDelta (hash : Hash256) (peerID : Nat) (parent : Option Ledger) : ReplayDelta where
  hash := hash
  peerID := peerID
  parent := parent
  state := .wantBase
  err := none
  result := none
  derived := none
  txs := []
  triedPeers := [peerID]

def derivedResolution (parent : LedgerHeader) (ledgerIndex : UInt32) : UInt32 :=
  getNextLedgerTimeResolution parent.closeTimeResolution.toUInt32 parent.getCloseAgree ledgerIndex

def checkParent (hdr : LedgerHeader) : Option Ledger → Except Error Unit
  | none => .ok ()
  | some parent =>
    if hdr.parentHash ≠ parent.header.hash then
      .error (.new "replay parent mismatch")
    else if hdr.ledgerIndex ≠ parent.header.ledgerIndex + 1 then
      .error (.new "replay sequence mismatch")
    else if hdr.closeTimeResolution.toUInt32 ≠ derivedResolution parent.header hdr.ledgerIndex then
      .error (.new "target close time resolution")
    else
      .ok ()

section

variable [Sha512Half] {Tx Metadata EngineState : Type} [Engine Tx Metadata EngineState]

def checkHeader (resp : ReplayDeltaResponse) : Except Error LedgerHeader :=
  if resp.hasError then
    .error (.new "peer signaled error")
  else if resp.ledgerHeader.length = 0 then
    .error (.new "empty header")
  else
    match toHash32 resp.ledgerHash with
    | none => .error (.new "bad hash length")
    | some advertised =>
      let computed := Sha512Half.sum (hashPrefixLedgerMaster ++ resp.ledgerHeader)
      if computed ≠ advertised then
        .error (.new "header hash mismatch")
      else
        (orWrap "deserialize header" (deserializeHeader resp.ledgerHeader)).map fun hdr =>
          { hdr with hash := computed }

def decodeTx (decoded : List DecodedTx) (blob : List UInt8) : Except Error DecodedTx :=
  match orWrap "split blob" (splitTxWithMetaBlob blob) with
  | .error err => .error err
  | .ok (txBytes, metaBytes) =>
    let txID := computeTxID txBytes
    if decoded.any (fun seen => seen.hash = txID) then
      .error (.new "duplicate transaction")
    else
      match Engine.transactionIndexFromMetadata metaBytes with
      | none => .error (.new "extract index")
      | some index => .ok { index, hash := txID, txBytes, metaBytes, leafBlob := blob }

def decodeTxs : List (List UInt8) → SHAMap → List DecodedTx → Except Error (SHAMap × List DecodedTx)
  | [], txMap, decoded => .ok (txMap, decoded)
  | blob :: blobs, txMap, decoded =>
    match decodeTx decoded blob with
    | .error err => .error err
    | .ok dtx =>
      match txMap.putWithNodeType dtx.hash blob .transactionWithMeta with
      | (.error err, _) => .error (.wrap "insert into tx map" err)
      | (.ok (), txMap) => decodeTxs blobs txMap (decoded ++ [dtx])

variable [Amendments]

namespace ReplayDelta

def parentStateSnapshot (r : ReplayDelta) : Except Error SHAMap :=
  match r.parent with
  | none => .ok (SHAMap.new .state)
  | some parent => do
    let snap ← snapshot parent.stateMap true
    SkipList.setImmutable snap

def verifyAndBuild (r : ReplayDelta) (resp : ReplayDeltaResponse) : Except Error ReplayDelta := do
  let hdr ← checkHeader resp
  checkParent hdr r.parent
  let (txMap, decoded) ← decodeTxs resp.transactions (SHAMap.new .transaction) []
  let txMap ← orWrap "freeze tx map" (SkipList.setImmutable txMap)
  let rootHash ← orWrap "compute tx map root" txMap.hash
  if rootHash ≠ hdr.txHash then
    .error (.new "tx map root mismatch")
  else do
    let stateMap ← orWrap "snapshot parent state" r.parentStateSnapshot
    let result ← orWrap "construct replay ledger" (Ledger.newFromHeader hdr stateMap txMap)
    return { r with
      result := some result
      txs := decoded.mergeSort fun a b => a.index ≤ b.index }

def gotResponse (r : ReplayDelta) (reserved : Except Error Unit) (resp : ReplayDeltaResponse)
    : Except Error Unit × ReplayDelta :=
  if r.state ≠ .wantBase then
    (r.err.elim (.ok ()) .error, r)
  else
    match reserved with
    | .error err => (.error err, r)
    | .ok () =>
      match r.verifyAndBuild resp with
      | .error err => (.error err, { r with state := .failed, err := some err })
      | .ok r => (.ok (), { r with state := .replayReady })

end ReplayDelta

section Apply

structure Replaying (Tx Metadata EngineState : Type) where
  child : Ledger
  engine : EngineState
  expectedBatchInners : List (Tx × Option Metadata)

def Ledger.wrote (l : Ledger) (written : Written) : Ledger :=
  { l with stateMap := written.stateMap, dropsDestroyed := written.dropsDestroyed }

def errApplyPanic : Error := .new "recovered panic while applying replay delta"

def replayBatchInner (s : Replaying Tx Metadata EngineState) (dtx : DecodedTx)
    : Except Error (Replaying Tx Metadata EngineState) :=
  match s.expectedBatchInners with
  | [] => .error (.new "unexpected batch inner transaction")
  | (_, none) :: _ => .error (.new "batch inner transaction does not match outer execution")
  | (txn, some metadata) :: rest =>
    if Engine.computeTransactionHash txn ≠ some dtx.hash
        ∨ Engine.transactionIndex metadata ≠ dtx.index then
      .error (.new "batch inner transaction does not match outer execution")
    else
      match Engine.serializeMetadata (some metadata) with
      | none => .error (.new "serialize engine-generated batch inner metadata")
      | some expectedMeta =>
        if expectedMeta ≠ dtx.metaBytes then
          .error (.new "batch inner metadata bytes differ from authenticated peer metadata")
        else
          (orWrap "replay leaf install" (s.child.addTransactionWithMeta dtx.hash dtx.leafBlob)).map
            fun child => { s with child, expectedBatchInners := rest }

def applyTransaction (s : Replaying Tx Metadata EngineState) (txn : Tx)
    : Option (ApplyResult Tx Metadata × EngineState × Written) :=
  if Engine.isPseudoTransaction txn then
    Engine.applyPseudo s.engine s.child txn
  else
    (Engine.apply s.engine s.child txn).bind fun (result, engine, written) =>
      Engine.applyBatchInnerTransactions engine (s.child.wrote written) txn result

def replayOuter (s : Replaying Tx Metadata EngineState) (dtx : DecodedTx) (txn : Tx)
    : Except Error (Replaying Tx Metadata EngineState) :=
  if s.expectedBatchInners ≠ [] then
    .error (.new "batch inner transactions missing")
  else
    match applyTransaction s txn with
    | none => .error errApplyPanic
    | some (result, engine, written) =>
      if result.isApplied = false then
        .error (.new "engine returned a non-applied result")
      else
        match Engine.serializeMetadata result.metadata with
        | none => .error (.new "serialize engine-generated transaction metadata")
        | some engineMeta =>
          if engineMeta ≠ dtx.metaBytes then
            .error (.new "transaction metadata bytes differ from authenticated peer metadata")
          else
            (orWrap "replay leaf install"
              ((s.child.wrote written).addTransactionWithMeta dtx.hash dtx.leafBlob)).map
              fun child => { child, engine, expectedBatchInners := result.appliedInnerTransactions }

def replayTx (s : Replaying Tx Metadata EngineState) (dtx : DecodedTx)
    : Except Error (Replaying Tx Metadata EngineState) :=
  match Engine.parseFromBinary dtx.txBytes with
  | none => .error (.new "replay transaction parse")
  | some txn => if Engine.isInnerBatch txn then replayBatchInner s dtx else replayOuter s dtx txn

def isFlagLedger (seq : UInt32) : Bool := seq % 256 = 0

def openChild (parent : Ledger) (hdr : LedgerHeader) : Except Error Ledger := do
  let stateMap ← orWrap "snapshot parent state" (snapshot parent.stateMap true)
  let resolution := derivedResolution parent.header hdr.ledgerIndex
  if hdr.closeTimeResolution.toUInt32 ≠ resolution then
    .error (.new "target close time resolution")
  else
    let closeTime := applicationViewCloseTime parent.header.closeTime hdr.closeTime resolution
    orWrap "construct replay ledger" (Ledger.newOpenWithHeader
      { ledgerIndex := hdr.ledgerIndex
        parentHash := parent.header.hash
        parentCloseTime := parent.header.closeTime
        closeTime
        closeTimeResolution := hdr.closeTimeResolution
        drops := parent.header.drops
        hash := Hash256.zero
        txHash := Hash256.zero
        accountHash := Hash256.zero
        validated := false
        accepted := false
        closeFlags := 0 }
      stateMap (SHAMap.new .transaction))

variable [SkipList.LedgerHashesCodec]

def checkChild (child : Ledger) (hdr : LedgerHeader) : Except Error Ledger := do
  let gotTxRoot ← orWrap "compute replayed tx map hash" child.txMap.hash
  if gotTxRoot ≠ hdr.txHash then
    .error (.new "transaction map root mismatch after replay")
  else do
    let gotStateRoot ← orWrap "compute replayed state map hash" child.stateMap.hash
    if gotStateRoot ≠ hdr.accountHash then
      .error (.new "state map root mismatch")
    else if child.header.hash ≠ hdr.hash then
      .error (.new "ledger hash mismatch after close")
    else
      .ok child

def replayTxs (s : Replaying Tx Metadata EngineState)
    : List DecodedTx → Except Error (Replaying Tx Metadata EngineState)
  | [] => .ok s
  | dtx :: txs =>
    match replayTx s dtx with
    | .error err => .error err
    | .ok s => replayTxs s txs

def beforeTxs (child : Ledger) : Except Error Ledger :=
  if isFlagLedger child.header.ledgerIndex then
    (orWrap "flag-ledger updateNegativeUNL"
      (Engine.updateNegativeUNL child.stateMap child.header.ledgerIndex)).map
      fun stateMap => { child with stateMap }
  else
    .ok child

def replay (parent result : Ledger) (txs : List DecodedTx) : Except Error Ledger := do
  let hdr := result.header
  let child ← openChild parent hdr
  let engine := Engine.newEngine child
  let child ← beforeTxs child
  let s ← replayTxs { child, engine, expectedBatchInners := [] } txs
  if s.expectedBatchInners.length ≠ 0 then
    .error (.new "replay ended before all batch inner transactions")
  else do
    let child ← orWrap "close replayed ledger" (s.child.close hdr.closeTime hdr.closeFlags)
    checkChild child hdr

def ReplayDelta.derive (r : ReplayDelta) : Except Error Ledger :=
  match r.parent, r.result with
  | none, _ => .error (.new "cannot apply replay delta without parent ledger")
  | some _, none => .error (.new "verified result missing")
  | some parent, some result => replay parent result r.txs

def ReplayDelta.apply (r : ReplayDelta) : Except Error Ledger × ReplayDelta :=
  match r.state with
  | .complete =>
    (r.derived.elim (.error (.new "replay delta complete without derived ledger")) .ok, r)
  | .wantBase => (.error (.new "Apply called before response verified"), r)
  | .failed => (.error (.new "Apply called before response verified"), r)
  | .replayReady =>
    match r.derive with
    | .error err => (.error err, { r with state := .failed, err := some err })
    | .ok child => (.ok child, { r with derived := some child, state := .complete, err := none })

end Apply

end

structure Replayer where
  items : AList fun _ : Hash256 => ReplayDelta
  maxInFlight : Nat
  maxPerPeer : Nat

namespace Replayer

def new (maxInFlight maxPerPeer : Nat) : Replayer where
  items := ∅
  maxInFlight := maxInFlight
  maxPerPeer := maxPerPeer

def acquire (r : Replayer) (admitted : Except Error Unit) (hash : Hash256) (peerID : Nat)
    (parent : Option Ledger) : Except Error Unit × Replayer :=
  match admitted with
  | .error err => (.error err, r)
  | .ok () =>
    if hash ∈ r.items then
      (.error (.new "acquisition exists"), r)
    else if r.maxInFlight ≤ r.items.keys.length then
      (.error (.new "capacity full"), r)
    else if r.maxPerPeer ≤ r.items.entries.countP (fun e => e.2.peerID = peerID) then
      (.error (.new "per-peer capacity full"), r)
    else
      (.ok (), { r with items := r.items.insert hash (newReplayDelta hash peerID parent) })

def noteSubTaskRetry (r : Replayer) (hash : Hash256) (newPeerID : Nat) : Replayer :=
  match r.items.lookup hash with
  | none => r
  | some rd =>
    let rd := { rd with peerID := newPeerID, triedPeers := rd.triedPeers ++ [newPeerID] }
    { r with items := r.items.insert hash rd }

def complete (r : Replayer) (hash : Hash256) : Replayer :=
  { r with items := r.items.erase hash }

variable [Sha512Half] {Tx Metadata EngineState : Type} [Engine Tx Metadata EngineState]
  [Amendments]

def handleResponseFrom (r : Replayer) (peerID : Nat) (enforcePeer : Bool)
    (reserved : Except Error Unit) (resp : ReplayDeltaResponse) : Except Error Unit × Replayer :=
  match toHash32 resp.ledgerHash with
  | none => (.error (.new "no matching acquisition"), r)
  | some hash =>
    match r.items.lookup hash with
    | none => (.error (.new "no matching acquisition"), r)
    | some rd =>
      if enforcePeer ∧ peerID ∉ rd.triedPeers then
        (.error (.new "unexpected replay peer"), r)
      else
        let (err, rd) := rd.gotResponse reserved resp
        (err, { r with items := r.items.insert hash rd })

variable [SkipList.LedgerHashesCodec]

def apply (r : Replayer) (hash : Hash256) : Except Error Ledger × Replayer :=
  match r.items.lookup hash with
  | none => (.error (.new "no matching acquisition"), r)
  | some rd =>
    let (derived, rd) := rd.apply
    (derived, { r with items := r.items.insert hash rd })

end Replayer

end Replay
