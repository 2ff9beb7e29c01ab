import GoXrpl.Tally.Basic
import GoXrpl.Validations.Impl.Tracker

/-!
This module contains how the engine of package `rcl` counts the peers that agree with it, and when
it takes a round to be decided.
-/

namespace Consensus

open Tally
open Validations (NodeID)

abbrev TxSetID := Hash256

structure Proposal where
  txSet : TxSetID
  deriving DecidableEq

inductive Mode where
  | proposing
  | observing
  | wrongLedger
  | switchedLedger
  deriving DecidableEq

abbrev Duration := Int

structure Timing where
  ledgerMinConsensus : Duration
  ledgerMaxConsensus : Duration
  ledgerAbandonConsensus : Duration

inductive Phase where
  | phaseOpen
  | establish
  | accepted
  deriving DecidableEq

structure Round where
  phase : Phase
  -- `ourTxSet.ID()`
  ourTxSet : Option TxSetID
  -- the accepted ledger is being built, without the lock of the engine
  buildInProgress : Bool

namespace Round

inductive Event where
  | startRound
  -- `none` where not even the empty set could be built
  | closeLedger (txSet : Option TxSetID)
  | updatePosition (newTxSet : TxSetID)
  | acceptLedger
  | commitAcceptedLedger (failed : Bool)

def newEngine : Round where
  phase := .accepted
  ourTxSet := none
  buildInProgress := false

def step (r : Round) : Event → Round
  | .startRound =>
    if r.buildInProgress then r else { r with phase := .phaseOpen, ourTxSet := none }
  | .closeLedger none => r
  | .closeLedger (some txSet) => { r with phase := .establish, ourTxSet := some txSet }
  | .updatePosition newTxSet =>
    match r.ourTxSet with
    | none => r
    | some _ => { r with ourTxSet := some newTxSet }
  | .acceptLedger =>
    match r.phase with
    | .establish => { r with phase := .accepted, buildInProgress := true }
    | _ => r
  | .commitAcceptedLedger failed =>
    if !r.buildInProgress then r
    else { r with phase := if failed then .establish else r.phase, buildInProgress := false }

end Round

structure Engine extends Round where
  proposals : AList fun _ : NodeID => Proposal
  pendingTrustPurge : List NodeID
  -- the trusted snapshot, or the answers of the adaptor before there is one
  trusted : NodeID → Bool
  -- `state.OurPosition.TxSet`
  ourPosition : Option TxSetID
  mode : Mode
  timing : Timing
  prevProposers : Nat
  prevRoundTime : Duration
  minConsensusPct : Nat
  haveCloseTimeConsensus : Bool
  -- `disputeTracker.allStalled`, `none` without a tracker
  allStalled : Option Bool
  -- `validationTracker.proposersFinished` of the previous ledger, `none` without one
  proposersFinished : Option Nat
  abandonDeadlineExceeded : Duration → Bool

def checkConsensusReached (agreeing total : Nat) (countSelf : Bool) (minPct : Nat)
    (reachedMax stalled : Bool) : Bool :=
  if total = 0 then
    reachedMax
  else if stalled then
    true
  else
    let self := if countSelf then 1 else 0
    decide ((agreeing + self) * 100 / (total + self) ≥ minPct)

inductive ConsensusState where
  | no
  | yes
  | movedOn
  | expired
  deriving DecidableEq

namespace Engine

def purgePendingTrust (e : Engine) : Engine where
  __ := e
  proposals := e.pendingTrustPurge.foldl (fun proposals nodeID => proposals.erase nodeID) e.proposals
  pendingTrustPurge := []

def haveOurs (e : Engine) : Option TxSetID :=
  match e.ourPosition with
  | some txSet => some txSet
  | none => e.ourTxSet

def countAgreement (e : Engine) : Nat × Nat :=
  let e := e.purgePendingTrust
  match e.haveOurs with
  | none =>
    let counts := e.proposals.entries.foldl
      (fun counts p => if e.trusted p.1 then counts.add p.2.txSet else counts) (∅ : Counts TxSetID)
    let best := counts.best
    (best, counts.others best)
  | some ourTxSet =>
    e.proposals.entries.foldl
      (fun count p =>
        if !e.trusted p.1 then
          count
        else if p.2.txSet = ourTxSet then
          (count.1 + 1, count.2)
        else
          (count.1, count.2 + 1))
      (0, 0)

def isStalled (e : Engine) : Bool :=
  e.haveCloseTimeConsensus && e.allStalled.getD false

def checkConsensusState (e : Engine) (roundTime : Duration) (agree currentProposers : Nat)
    : ConsensusState :=
  let proposing := decide (e.mode = .proposing)
  let reachedMax := decide (e.timing.ledgerMaxConsensus > 0)
    && decide (roundTime > e.timing.ledgerMaxConsensus)
  if roundTime ≤ e.timing.ledgerMinConsensus then
    .no
  else if e.prevProposers > 0 ∧ currentProposers < e.prevProposers * 3 / 4
      ∧ roundTime < e.prevRoundTime + e.timing.ledgerMinConsensus then
    .no
  else if checkConsensusReached agree currentProposers proposing e.minConsensusPct reachedMax
      e.isStalled then
    .yes
  else if (e.proposersFinished.map fun finished =>
      checkConsensusReached finished currentProposers false e.minConsensusPct reachedMax false)
      = some true then
    .movedOn
  else if e.timing.ledgerAbandonConsensus > 0 ∧ e.abandonDeadlineExceeded roundTime then
    .expired
  else
    .no

-- As far as the verdict, `none` where it is not asked for
def checkConvergence (e : Engine) (roundTime : Duration) : Option ConsensusState :=
  if e.phase ≠ .establish ∨ e.mode = .wrongLedger then
    none
  else
    let (agree, disagree) := e.countAgreement
    some (e.checkConsensusState roundTime agree (agree + disagree))

end Engine

end Consensus
