import GoXrpl.Disputes.Impl.Tracker

/-!
This module contains how the engine of package `rcl` keeps its disputes during a round.
-/

namespace Disputes

open Validations (NodeID LedgerID Time)
open Consensus (TxSetID)

def seqLeave : Nat := 0xFFFFFFFF

structure Proposal where
  nodeID : NodeID
  position : Nat
  txSet : TxSetID
  previousLedger : LedgerID
  timestamp : Time
  deriving DecidableEq

abbrev Held := Sigma fun _ : NodeID => Proposal

inductive Phase where
  | opened
  | establish
  | accepted
  deriving DecidableEq

structure Order (α : Type) where
  visit : List α → List α
  perm : ∀ l, (visit l).Perm l

section

variable [Sha512Half]

structure Adaptor where
  verifyProposal : Proposal → Bool
  txSetCache : List TxSet
  buildTxSet : List Blob → Option TxSet
  mem_buildTxSet : ∀ blobs s, buildTxSet blobs = some s →
    ∀ txID, txID ∈ s.txIDs ↔ ∃ blob ∈ blobs, computeTxID blob = txID

def Adaptor.getTxSet (a : Adaptor) (id : TxSetID) : Option TxSet :=
  a.txSetCache.find? fun s => s.id = id

/--
What the handlers read and write of the engine; `trusted` is both the adaptor's answer and the
snapshot.
-/
structure Engine where
  phase : Phase
  prevLedger : Option LedgerID
  -- the key of a node that is a validator
  validatorKey : Option NodeID
  trusted : List NodeID
  pendingTrustPurge : List NodeID
  proposals : AList fun _ : NodeID => Proposal
  deadNodes : List NodeID
  ourTxSet : Option TxSet
  acquiredTxSets : AList fun _ : TxSetID => TxSet
  comparesTxSets : List TxSetID
  disputeTracker : DisputeTracker
  peerUnchangedCounter : Nat

inductive HandlerError where
  | invalidProposalSignature
  | failedToBuildTxSet
  | txSetIDMismatch
  deriving DecidableEq

namespace Engine

def recordTrustTransition (e : Engine) (trusted : List NodeID) : Engine :=
  { e with
    pendingTrustPurge := e.trusted.filter (· ∉ trusted) ++ e.pendingTrustPurge
    trusted := trusted }

def unVote (e : Engine) (nodeID : NodeID) : Engine :=
  { e with disputeTracker := e.disputeTracker.unVote nodeID }

def dropNode (e : Engine) (nodeID : NodeID) : Engine :=
  { e with proposals := e.proposals.erase nodeID }.unVote nodeID

def purgePendingTrust (e : Engine) : Engine :=
  { e.pendingTrustPurge.foldl dropNode e with pendingTrustPurge := [] }

def pruneUntrusted (e : Engine) : Engine :=
  (e.proposals.keys.filter (· ∉ e.trusted)).foldl dropNode e

def pruneUntrustedProposals (e : Engine) : Engine :=
  e.purgePendingTrust.pruneUntrusted.purgePendingTrust

def isStale (e : Engine) (cutoff : Time) (nodeID : NodeID) : Bool :=
  (e.proposals.lookup nodeID).any fun p => p.timestamp ≠ 0 ∧ p.timestamp < cutoff

def pruneStaleProposals (e : Engine) (cutoff : Time) : Engine :=
  (e.proposals.keys.filter (e.isStale cutoff)).foldl dropNode e

def markDead (e : Engine) (nodeID : NodeID) : Engine :=
  { e with proposals := e.proposals.erase nodeID, deadNodes := nodeID :: e.deadNodes }

def setPosition (e : Engine) (p : Proposal) : Engine :=
  { e with proposals := e.proposals.insert p.nodeID p }

def store (e : Engine) (p : Proposal) : Option Engine :=
  if (e.proposals.lookup p.nodeID).any (fun existing => p.position ≤ existing.position) then
    none
  else
    some (e.setPosition p)

def updateDisputes (e : Engine) (nodeID : NodeID) (peerTxSet : TxSet) : Engine :=
  let (disputeTracker, changed) := e.disputeTracker.updateDisputes nodeID peerTxSet
  { e with
    disputeTracker
    peerUnchangedCounter := if changed then 0 else e.peerUnchangedCounter }

def setVote (e : Engine) (txID : TxID) (nodeID : NodeID) (yes : Bool) : Engine :=
  let (disputeTracker, changed) := e.disputeTracker.setVote txID nodeID yes
  { e with
    disputeTracker
    peerUnchangedCounter := if changed then 0 else e.peerUnchangedCounter }

def positionOf (e : Engine) (nodeID : NodeID) (p : Proposal) : Option TxSet :=
  if nodeID ∈ e.trusted then e.acquiredTxSets.lookup p.txSet else none

def seedVote (e : Engine) (txID : TxID) (e' : Engine) (entry : Held)
    : Engine :=
  match e.positionOf entry.1 entry.2 with
  | none => e'
  | some peerSet => e'.setVote txID entry.1 (peerSet.contains txID)

def seedDisputeVotes (e : Engine) (txID : TxID) : Engine :=
  e.proposals.entries.foldl (e.seedVote txID) e

def createDispute (e : Engine) (tx : Blob) (ourVote : Bool) : Engine :=
  { e with disputeTracker := e.disputeTracker.createDispute (computeTxID tx) tx ourVote }

def disputeTx (other : TxSet) (ourVote : Bool) (e : Engine) (tx : Blob) : Engine :=
  if computeTxID tx ∈ other.txIDs then
    e
  else if computeTxID tx ∈ e.disputeTracker then
    e
  else
    (e.createDispute tx ourVote).seedDisputeVotes (computeTxID tx)

def createDisputesAgainst (e : Engine) (peerTxSet : TxSet) : Engine :=
  match e.ourTxSet with
  | none => e
  | some ours =>
    if peerTxSet.id ∈ e.comparesTxSets then
      e
    else
      let e := { e with comparesTxSets := peerTxSet.id :: e.comparesTxSets }
      if peerTxSet.id = ours.id then
        e
      else
        let e := ours.txs.foldl (disputeTx peerTxSet true) e
        peerTxSet.txs.foldl (disputeTx ours false) e

def acquire (e : Engine) (id : TxSetID) (s : TxSet) : Engine :=
  { e with acquiredTxSets := e.acquiredTxSets.insert id s }

def cacheTxSet (e : Engine) (a : Adaptor) (id : TxSetID) : Engine :=
  match a.getTxSet id with
  | none => e
  | some peerSet =>
    if id ∈ e.acquiredTxSets then
      e
    else
      e.acquire id peerSet

def wirePosition (e : Engine) (a : Adaptor) (p : Proposal) : Engine :=
  let e := e.cacheTxSet a p.txSet
  match e.ourTxSet, e.acquiredTxSets.lookup p.txSet with
  | some _, some peerSet =>
    if p.nodeID ∉ e.trusted then
      e
    else
      (e.createDisputesAgainst peerSet).updateDisputes p.nodeID peerSet
  | _, _ => e

def onProposal (e : Engine) (a : Adaptor) (p : Proposal) : Except HandlerError Engine :=
  if a.verifyProposal p = false then
    .error .invalidProposalSignature
  else
    let e := e.purgePendingTrust
    if e.validatorKey = some p.nodeID then
      .ok e
    else if p.nodeID ∉ e.trusted then
      .ok e
    else if e.phase = .accepted then
      .ok e
    else if e.prevLedger.isSome ∧ e.prevLedger ≠ some p.previousLedger then
      .ok e
    else if p.nodeID ∈ e.deadNodes then
      .ok e
    else if p.position = seqLeave then
      .ok ((e.markDead p.nodeID).unVote p.nodeID)
    else
      match e.store p with
      | none => .ok e
      | some e => .ok (e.wirePosition a p)

def updateVotes (e : Engine) (id : TxSetID) (s : TxSet) (e' : Engine) (entry : Held) : Engine :=
  if entry.1 ∈ e.trusted ∧ entry.2.txSet = id then
    e'.updateDisputes entry.1 s
  else
    e'

def updateStanding (e : Engine) (id : TxSetID) (s : TxSet) : Engine :=
  e.proposals.entries.foldl (e.updateVotes id s) e

def onTxSet (e : Engine) (a : Adaptor) (id : TxSetID) (txs : List Blob)
    : Except HandlerError Engine :=
  match a.buildTxSet txs with
  | none => .error .failedToBuildTxSet
  | some txSet =>
    if txSet.id ≠ id then
      .error .txSetIDMismatch
    else if e.phase = .accepted then
      .ok e
    else
      let e := e.purgePendingTrust
      if id ∈ e.acquiredTxSets then
        .ok e
      else
        let e := e.acquire id txSet
        match e.ourTxSet with
        | none => .ok e
        | some ours =>
          if id = ours.id then
            .ok e
          else
            .ok ((e.createDisputesAgainst txSet).updateStanding id txSet)

def seedPosition (a : Adaptor) (e : Engine) (entry : Held) : Engine :=
  if entry.1 ∉ e.trusted then
    e
  else
    match e.acquiredTxSets.lookup entry.2.txSet with
    | some peerSet => e.createDisputesAgainst peerSet
    | none =>
      if e.ourTxSet.any (fun ours => ours.id = entry.2.txSet) then
        e
      else
        match a.getTxSet entry.2.txSet with
        | some peerSet => (e.acquire entry.2.txSet peerSet).createDisputesAgainst peerSet
        | none => e

def buildOurTxSet (a : Adaptor) (txs : List Blob) : Option TxSet :=
  match a.buildTxSet txs with
  | some txSet => some txSet
  | none => a.buildTxSet []

def takeOurTxSet (e : Engine) (txSet : TxSet) : Engine :=
  { e with ourTxSet := some txSet, acquiredTxSets := e.acquiredTxSets.insert txSet.id txSet
    }.pruneUntrustedProposals

def closeLedger (e : Engine) (a : Adaptor) (order : Order Held) (txs : List Blob) : Engine :=
  let e := e.purgePendingTrust
  match buildOurTxSet a txs with
  | none => e
  | some txSet =>
    let e := e.takeOurTxSet txSet
    { (order.visit e.proposals.entries).foldl (seedPosition a) e with phase := .establish }

def keep (e : Engine) (ours : TxSet) (changed : List TxID) (txID : TxID) : Bool :=
  if txID ∈ changed then
    (e.disputeTracker.lookup txID).any fun d => d.ourVote
  else
    ours.contains txID

def newBlobs (e : Engine) (ours : TxSet) (changed : List TxID) : List Blob :=
  ours.txs.filter (fun tx => e.keep ours changed (computeTxID tx))
    ++ changed.filterMap fun txID =>
      if ours.contains txID ∨ e.keep ours changed txID = false then
        none
      else
        -- a copy of an empty blob is nil
        ((e.disputeTracker.lookup txID).map fun d => d.tx).filter fun tx => tx ≠ []

def updatePosition (e : Engine) (a : Adaptor) (parms : VoteParms) : Engine :=
  let e := e.purgePendingTrust
  match e.ourTxSet with
  | none => e
  | some ours =>
    let (disputeTracker, changed) := e.disputeTracker.updateOurVote parms
    let e := { e with disputeTracker }
    if changed = [] then
      e
    else
      match a.buildTxSet (e.newBlobs ours changed) with
      | none => e
      | some newTxSet =>
        if newTxSet.id = ours.id then
          e
        else
          { e with
            ourTxSet := some newTxSet
            acquiredTxSets := e.acquiredTxSets.insert newTxSet.id newTxSet
            }.updateStanding newTxSet.id newTxSet

def startRound (prevLedger : Option LedgerID) (validatorKey : Option NodeID)
    (trusted deadNodes : List NodeID) (replayed : AList fun _ : NodeID => Proposal) : Engine :=
  { phase := .opened
    prevLedger, validatorKey, trusted, deadNodes
    pendingTrustPurge := []
    proposals := replayed
    ourTxSet := none
    acquiredTxSets := ∅
    comparesTxSets := []
    disputeTracker := ∅
    peerUnchangedCounter := 0 : Engine }.pruneUntrustedProposals

end Engine

end

end Disputes
