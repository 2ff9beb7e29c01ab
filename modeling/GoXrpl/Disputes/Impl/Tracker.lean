import GoXrpl.Assoc.Basic
import GoXrpl.Consensus.Impl.Agreement

/-!
This module contains the dispute tracker of package `rcl`: the disputed transactions of a round and
the votes of the peers on each.
-/

namespace Disputes

open Validations (NodeID)
open Consensus (TxSetID)

abbrev TxID := Hash256

abbrev Blob := List UInt8

section TxSet

variable [Sha512Half]

def hashPrefixTransactionID : List UInt8 := [0x54, 0x58, 0x4E, 0x00]

def computeTxID (blob : Blob) : TxID := Sha512Half.sum (hashPrefixTransactionID ++ blob)

structure TxSet where
  id : TxSetID
  txs : List Blob
  deriving DecidableEq

def TxSet.txIDs (s : TxSet) : List TxID := s.txs.map computeTxID

def TxSet.contains (s : TxSet) (txID : TxID) : Bool := decide (txID ∈ s.txIDs)

end TxSet

inductive AvalancheState where
  | init
  | mid
  | late
  | stuck
  deriving DecidableEq

structure AvalancheCutoff where
  consensusTime : Int
  consensusPct : Int
  next : AvalancheState

def avalancheCutoff : AvalancheState → AvalancheCutoff
  | .init => { consensusTime := 0, consensusPct := 50, next := .mid }
  | .mid => { consensusTime := 50, consensusPct := 65, next := .late }
  | .late => { consensusTime := 85, consensusPct := 70, next := .stuck }
  | .stuck => { consensusTime := 200, consensusPct := 95, next := .stuck }

def neededWeight (state : AvalancheState) (percentTime currentRounds minimumRounds : Int)
    : Int × Option AvalancheState :=
  let current := avalancheCutoff state
  let next := avalancheCutoff current.next
  -- the times of the table increase, so the panic on a decreasing one is not reached
  if current.next ≠ state ∧ minimumRounds ≤ currentRounds ∧ next.consensusTime ≤ percentTime then
    (next.consensusPct, some current.next)
  else
    (current.consensusPct, none)

structure DisputedTx where
  txID : TxID
  tx : Blob
  ourVote : Bool
  yays : Int
  nays : Int
  votes : AList fun _ : NodeID => Bool
  avalancheState : AvalancheState
  avalancheCounter : Int
  currentVoteCounter : Int

def updateVoteCount (d : DisputedTx) (peerID : NodeID) (yes : Bool) : DisputedTx × Bool :=
  match d.votes.lookup peerID with
  | none =>
    if yes then
      ({ d with votes := d.votes.insert peerID true, yays := d.yays + 1 }, true)
    else
      ({ d with votes := d.votes.insert peerID false, nays := d.nays + 1 }, true)
  | some prev =>
    if prev = yes then
      (d, false)
    else if yes then
      ({ d with votes := d.votes.insert peerID true, nays := d.nays - 1, yays := d.yays + 1 }, true)
    else
      ({ d with votes := d.votes.insert peerID false, yays := d.yays - 1, nays := d.nays + 1 }, true)

def DisputedTx.unVote (d : DisputedTx) (peerID : NodeID) : DisputedTx :=
  match d.votes.lookup peerID with
  | none => d
  | some true => { d with votes := d.votes.erase peerID, yays := d.yays - 1 }
  | some false => { d with votes := d.votes.erase peerID, nays := d.nays - 1 }

structure VoteParms where
  percentTime : Int
  proposing : Bool
  minRounds : Int

def DisputedTx.newVote (d : DisputedTx) (proposing : Bool) (requiredPct : Int) : Bool :=
  if proposing then
    let ownContribution := if d.ourVote then 100 else 0
    decide (requiredPct < (d.yays * 100 + ownContribution).tdiv (d.yays + d.nays + 1))
  else
    decide (d.nays < d.yays)

def DisputedTx.advance (d : DisputedTx) (parms : VoteParms) : DisputedTx × Int :=
  let rounds := d.avalancheCounter + 1
  match neededWeight d.avalancheState parms.percentTime rounds parms.minRounds with
  | (requiredPct, some newState) =>
    ({ d with avalancheState := newState, avalancheCounter := 0 }, requiredPct)
  | (requiredPct, none) => ({ d with avalancheCounter := rounds }, requiredPct)

def DisputedTx.vote (d : DisputedTx) (newVote : Bool) : DisputedTx × Bool :=
  if newVote = d.ourVote then
    ({ d with currentVoteCounter := d.currentVoteCounter + 1 }, false)
  else
    ({ d with currentVoteCounter := 0, ourVote := newVote }, true)

def DisputedTx.updateOurVote (d : DisputedTx) (parms : VoteParms) : DisputedTx × Bool :=
  if d.ourVote = true ∧ d.nays = 0 then
    (d, false)
  else if d.ourVote = false ∧ d.yays = 0 then
    (d, false)
  else
    let (d, requiredPct) := d.advance parms
    d.vote (d.newVote parms.proposing requiredPct)

abbrev DisputeTracker := AList fun _ : TxID => DisputedTx

namespace DisputeTracker

def createDispute (dt : DisputeTracker) (txID : TxID) (tx : Blob) (ourVote : Bool)
    : DisputeTracker :=
  match dt.lookup txID with
  | some _ => dt
  | none =>
    dt.insert txID
      { txID, tx, ourVote
        yays := 0
        nays := 0
        votes := ∅
        avalancheState := .init
        avalancheCounter := 0
        currentVoteCounter := 0 }

def setVote (dt : DisputeTracker) (txID : TxID) (peerID : NodeID) (yes : Bool)
    : DisputeTracker × Bool :=
  match dt.lookup txID with
  | none => (dt, false)
  | some d => (dt.insert txID (updateVoteCount d peerID yes).1, (updateVoteCount d peerID yes).2)

def unVote (dt : DisputeTracker) (peerID : NodeID) : DisputeTracker :=
  Assoc.mapValues (fun _ d => d.unVote peerID) dt

def updateDisputes [Sha512Half] (dt : DisputeTracker) (peerID : NodeID) (peerTxSet : TxSet)
    : DisputeTracker × Bool :=
  (Assoc.mapValues (fun txID d => (updateVoteCount d peerID (peerTxSet.contains txID)).1) dt,
    dt.entries.any fun e => (updateVoteCount e.2 peerID (peerTxSet.contains e.1)).2)

def updateOurVote (dt : DisputeTracker) (parms : VoteParms) : DisputeTracker × List TxID :=
  (Assoc.mapValues (fun _ d => (d.updateOurVote parms).1) dt,
    (dt.entries.filter fun e => (e.2.updateOurVote parms).2).map fun e => e.1)

end DisputeTracker

end Disputes
