import GoXrpl.Validations.Impl.Tracker
import Mathlib.Data.List.Dedup
import Mathlib.Data.List.Sort

/-!
This module contains the finality queue of the tracker, the locked sections of its operations, and
the tracker as a system of lock sections.
-/

namespace Validations

def lexLessLgrID (a b : LedgerID) : Bool := decide (a.toList < b.toList)

def FinalityKey.less (a b : FinalityKey) : Bool :=
  if a.ledgerSeq ≠ b.ledgerSeq then
    a.ledgerSeq < b.ledgerSeq
  else
    lexLessLgrID a.ledgerID b.ledgerID

def FinalityNotification.less (a b : FinalityNotification) : Bool :=
  if a.key.ledgerSeq ≠ b.key.ledgerSeq then
    a.key.ledgerSeq < b.key.ledgerSeq
  else if a.key.ledgerID ≠ b.key.ledgerID then
    lexLessLgrID a.key.ledgerID b.key.ledgerID
  else
    a.generation < b.generation

namespace Tracker

def quorumReached (t : Tracker) (key : FinalityKey) : Bool :=
  match t.validations.lookup key.ledgerID with
  | none => false
  | some lv =>
    let trustedCount := countTrustedAtSeq lv.vals t.trusted t.negUNL key.ledgerSeq
    !(trustedCount == 0 || (trustedCount : Int) < t.quorum)

def cancelFinality (t : Tracker) (key : FinalityKey) : Tracker :=
  { t with
    fired := t.fired.filter (· ≠ key)
    pendingGeneration := t.pendingGeneration.erase key
    pendingFinality := t.pendingFinality.filter (·.key ≠ key) }

def enqueueFinality (t : Tracker) (key : FinalityKey) : Tracker :=
  if key ∈ t.pendingGeneration then
    t
  else
    let generation := t.finalityGeneration + 1
    let notification := FinalityNotification.mk key generation
    { t with
      finalityGeneration := generation
      pendingGeneration := t.pendingGeneration.insert key generation
      pendingFinality :=
        (t.pendingFinality ++ [notification]).insertionSort fun a b => !b.less a }

def retainQuorum (t : Tracker) (key : FinalityKey) : Tracker :=
  match t.retainedQuorum with
  | some proof =>
    if key.ledgerSeq ≤ proof.ledgerSeq then t else { t with retainedQuorum := some key }
  | none => { t with retainedQuorum := some key }

-- A delivered marker outlives a closed gate, a pending notification does not.
def suspendFinality (t : Tracker) (key : FinalityKey) : Tracker :=
  if key ∈ t.pendingGeneration then t.cancelFinality key else t

def checkFullValidation (t : Tracker) (key : FinalityKey) (respectUnavailable unavailable : Bool)
    : Tracker × Bool :=
  if !t.quorumReached key then
    (t.cancelFinality key, false)
  else
    let t := if unavailable then t else t.retainQuorum key
    if respectUnavailable && unavailable then
      (t.suspendFinality key, false)
    else if !t.onFullyValidated then
      (t, false)
    else if key ∈ t.fired then
      (t, false)
    else
      ({ t with fired := key :: t.fired }.enqueueFinality key, true)

def finalityKeys (t : Tracker) : List FinalityKey :=
  let keys := t.validations.entries.flatMap fun e =>
    e.2.vals.entries.map fun v => FinalityKey.mk e.1 v.2.ledgerSeq
  keys.dedup.insertionSort fun a b => !b.less a

def recheckFinality (t : Tracker) (unavailable : FinalityKey → Bool) : Tracker :=
  t.finalityKeys.foldl (fun t key => (t.checkFullValidation key true (unavailable key)).1) t

def finalityEligible (t : Tracker) (key : FinalityKey) (respectUnavailable unavailable : Bool)
    : Bool :=
  t.quorumReached key && (!respectUnavailable || !unavailable)

def claimDispatch (t : Tracker) : Tracker :=
  if t.dispatchingFinality || t.finalityDeferrals > 0 then
    t
  else
    { t with dispatchingFinality := true }

inductive Dispatch where
  | stop
  | skip
  | invoke (key : FinalityKey)
  deriving DecidableEq, Repr

/--
One lock section of the loop of `drainFinality`.
-/
def dispatchNext (t : Tracker) (unavailable : Bool) : Tracker × Dispatch :=
  if t.finalityDeferrals > 0 then
    ({ t with dispatchingFinality := false }, .stop)
  else
    match t.pendingFinality with
    | [] => ({ t with dispatchingFinality := false }, .stop)
    | notification :: rest =>
      let t := { t with pendingFinality := rest }
      let key := notification.key
      if t.pendingGeneration.lookup key ≠ some notification.generation then
        (t, .skip)
      else
        let t := { t with pendingGeneration := t.pendingGeneration.erase key }
        if !t.finalityEligible key true unavailable || !t.onFullyValidated then
          (t.cancelFinality key, .skip)
        else
          (t, .invoke key)

def beginFinalityDeferral (t : Tracker) : Tracker :=
  { t with finalityDeferrals := t.finalityDeferrals + 1 }

def endFinalityDeferral (t : Tracker) : Except String (Tracker × Bool) :=
  if t.finalityDeferrals = 0 then
    .error "validation finality deferral underflow"
  else
    let deferrals := t.finalityDeferrals - 1
    .ok ({ t with finalityDeferrals := deferrals }, deferrals == 0)

-- The validations `RecheckFullyValidated` counts: unlike the check, it wants a sign time.
def recheckedValidations (t : Tracker) (vals : AList (fun _ : NodeID => Validation)) (seq : Nat)
    : List Validation :=
  (vals.entries.filter fun e =>
    e.2.full && e.2.ledgerSeq == seq && e.2.signTime != 0 && t.trusted.contains e.1
      && !t.negUNL.contains e.1).map (·.2)

def settleRecheck (t : Tracker) (key : FinalityKey) (accepted unavailable : Bool)
    : Tracker × Bool :=
  if !accepted then
    (t.cancelFinality key, false)
  else if unavailable then
    (t.suspendFinality key, false)
  else
    let t := t.retainQuorum key
    if t.onFullyValidated then
      (if key ∈ t.fired then t else { t with fired := key :: t.fired }, true)
    else
      ({ t with fired := t.fired.filter (· ≠ key) }, true)

def recheckFullyValidated (t : Tracker) (key : FinalityKey) (now : Time) (unavailable : Bool)
    : Tracker × List Validation × Int × Bool :=
  match t.validations.lookup key.ledgerID with
  | none => (t.cancelFinality key, [], t.quorum, false)
  | some lv =>
    let result := t.recheckedValidations lv.vals key.ledgerSeq
    let accepted := decide (0 < result.length) && decide (t.quorum ≤ result.length)
    let r := (t.touch key.ledgerID now).settleRecheck key accepted unavailable
    (r.1, result, t.quorum, r.2)

def addMonotonic (t : Tracker) (v : Validation) (touch : Time) (unavailable : Bool)
    : Tracker × ValStatus :=
  if t.minSeq > 0 ∧ v.ledgerSeq < t.minSeq then
    (t, .stale)
  else
    let replaceCurrent := t.replacesCurrent v
    let t := t.record v touch
    if !replaceCurrent then
      (t, .stale)
    else
      let t := { t with byNode := t.byNode.insert v.nodeID v }
      ((t.checkFullValidation v.key true unavailable).1, .current)

def addStatus (t : Tracker) (v : Validation) (now touch : Time) (unavailable : Bool)
    : Tracker × ValStatus :=
  if !isCurrent now v.signTime v.seenTime then
    (t, .stale)
  else
    let tracked := t.trackBySequence v now
    let floor := tracked.1.advanceFloor v now
    if !floor.2 then
      (floor.1, classify tracked.2 v)
    else
      floor.1.addMonotonic v touch unavailable

def setTrustedAndQuorum (t : Tracker) (nodes : List NodeID) (quorum : Int)
    (unavailable : FinalityKey → Bool) : Tracker :=
  { t with trusted := nodes, quorum := quorum }.recheckFinality unavailable

def updateTrustedQuorumAndNegativeUNL (t : Tracker) (nodes : List NodeID) (quorum : Int)
    (negativeUNL : List NodeID) (unavailable : FinalityKey → Bool) : Tracker :=
  { t with trusted := nodes, quorum := quorum, negUNL := negativeUNL }.recheckFinality unavailable

def setNegativeUNL (t : Tracker) (nodes : List NodeID) (unavailable : FinalityKey → Bool)
    : Tracker :=
  { t with negUNL := nodes }.recheckFinality unavailable

def setFullyValidatedCallback (t : Tracker) (installed : Bool) (unavailable : FinalityKey → Bool)
    : Tracker :=
  let t := { t with onFullyValidated := installed }
  if installed then t.recheckFinality unavailable else t

def setMinSeq (t : Tracker) (seq : Nat) : Tracker :=
  if seq > t.minSeq then { t with minSeq := seq } else t

def setSeqToKeep (t : Tracker) (low high : Nat) : Tracker :=
  if high ≤ low then
    { t with keepLow := 0, keepHigh := 0 }
  else
    { t with keepLow := low, keepHigh := high }

def flushStale (t : Tracker) (now : Time) : Tracker :=
  let stillCurrent := fun nodeID => match t.byNode.lookup nodeID with
    | none => true
    | some v => isCurrent now v.signTime v.seenTime
  let idle := fun nodeID => match t.seqEnforcers.lookup nodeID with
    | none => false
    | some enf => decide (now - enf.when > validationSetExpires)
  let cold := fun seq => match t.bySequence.lookup seq with
    | none => false
    | some bucket => decide (now - bucket.touched > validationSetExpires)
  { t with
    byNode := (t.byNode.keys.filter (!stillCurrent ·)).foldl (fun m n => m.erase n) t.byNode
    bySequence := (t.bySequence.keys.filter cold).foldl (fun m s => m.erase s) t.bySequence
    seqEnforcers := (t.seqEnforcers.keys.filter idle).foldl (fun m n => m.erase n) t.seqEnforcers }

/--
Whether `ExpireOld` drops a set; `sample` names the node whose validation it looks at.
-/
def expires (t : Tracker) (lv : LedgerValidations) (minSeq : Nat) (now : Time)
    (sample : NodeID) : Bool :=
  match (lv.vals.lookup sample).or (lv.vals.entries.head?.map (·.2)) with
  | none => false
  | some v =>
    if v.ledgerSeq ≥ minSeq then
      false
    else if t.keepLow < t.keepHigh ∧ t.keepLow ≤ v.ledgerSeq ∧ v.ledgerSeq < t.keepHigh then
      false
    else
      !decide (lv.lastAccess > now - validationSetExpires)

-- The pointer comparison with the node's latest validation is a comparison of values here.
def expireLedger (t : Tracker) (ledgerID : LedgerID) (lv : LedgerValidations) : Tracker :=
  let superseded := (lv.vals.entries.filter fun e => t.byNode.lookup e.1 = some e.2).map (·.1)
  let t := { t with
    byNode := superseded.foldl (fun m n => m.erase n) t.byNode
    validations := t.validations.erase ledgerID }
  (t.fired.filter (·.ledgerID = ledgerID)).foldl cancelFinality t

def expireOld (t : Tracker) (minSeq : Nat) (now : Time) (sample : LedgerID → NodeID) : Tracker :=
  t.validations.entries.foldl
    (fun t e => if t.expires e.2 minSeq now (sample e.1) then t.expireLedger e.1 e.2 else t) t

def flush (t : Tracker) : Tracker :=
  { t with
    validations := ∅
    byNode := ∅
    bySequence := ∅
    seqEnforcers := ∅
    fired := []
    pendingFinality := []
    pendingGeneration := ∅ }

end Tracker

/--
The operations with what they read from the clock and the gate. `drainFinality` says whether an
operation that leaves the choice to its caller drains the queue itself.
-/
inductive Op where
  | addStatus (v : Validation) (now touch : Time) (unavailable : Bool) (drainFinality : Bool)
  | setTrustedAndQuorum (nodes : List NodeID) (quorum : Int) (unavailable : FinalityKey → Bool)
  | updateTrustedQuorumAndNegativeUNL (nodes : List NodeID) (quorum : Int)
      (negativeUNL : List NodeID) (unavailable : FinalityKey → Bool) (drainFinality : Bool)
  | setNegativeUNL (nodes : List NodeID) (unavailable : FinalityKey → Bool)
  | setQuorumUnavailableFunc (unavailable : FinalityKey → Bool)
  | recheckFinality (unavailable : FinalityKey → Bool)
  | setFullyValidatedCallback (installed : Bool) (unavailable : FinalityKey → Bool)
  | recheckFullyValidated (key : FinalityKey) (now : Time) (unavailable : Bool)
  -- The queries of the validations of a ledger.
  | query (ledgerID : LedgerID) (now : Time)
  | setMinSeq (seq : Nat)
  | setSeqToKeep (low high : Nat)
  | flushStale (now : Time)
  | expireOld (minSeq : Nat) (now : Time) (sample : LedgerID → NodeID)
  | flush
  | beginFinalityDeferral
  | endFinalityDeferral

namespace Op

def enabled (t : Tracker) : Op → Bool
  | addStatus _ _ _ _ drainFinality => drainFinality || t.finalityDeferrals > 0
  | updateTrustedQuorumAndNegativeUNL _ _ _ _ drainFinality =>
    drainFinality || t.finalityDeferrals > 0
  | _ => true

def exec (t : Tracker) : Op → Tracker × Bool
  | addStatus v now touch unavailable drainFinality =>
    ((t.addStatus v now touch unavailable).1,
      drainFinality && isCurrent now v.signTime v.seenTime)
  | setTrustedAndQuorum nodes quorum unavailable =>
    (t.setTrustedAndQuorum nodes quorum unavailable, true)
  | updateTrustedQuorumAndNegativeUNL nodes quorum negativeUNL unavailable drainFinality =>
    (t.updateTrustedQuorumAndNegativeUNL nodes quorum negativeUNL unavailable, drainFinality)
  | setNegativeUNL nodes unavailable => (t.setNegativeUNL nodes unavailable, true)
  | setQuorumUnavailableFunc unavailable => (t.recheckFinality unavailable, true)
  | recheckFinality unavailable => (t.recheckFinality unavailable, true)
  | setFullyValidatedCallback installed unavailable =>
    (t.setFullyValidatedCallback installed unavailable, true)
  | recheckFullyValidated key now unavailable =>
    ((t.recheckFullyValidated key now unavailable).1, false)
  | query ledgerID now => (t.touch ledgerID now, false)
  | setMinSeq seq => (t.setMinSeq seq, false)
  | setSeqToKeep low high => (t.setSeqToKeep low high, false)
  | flushStale now => (t.flushStale now, false)
  | expireOld minSeq now sample => (t.expireOld minSeq now sample, false)
  | flush => (t.flush, false)
  | beginFinalityDeferral => (t.beginFinalityDeferral, false)
  | endFinalityDeferral =>
    match t.endFinalityDeferral with
    | .error _ => (t, false)
    | .ok r => r

end Op

inductive Action where
  | call (op : Op)
  -- An operation that has left its own section calls `drainFinality`.
  | drain
  | dispatch (unavailable : Bool)
  | callbackReturns

/--
The tracker, the number of operations that are still to call `drainFinality`, and whether the
dispatcher is inside the callback.
-/
structure System where
  tracker : Tracker
  draining : Nat
  inCallback : Bool

namespace System

def start (tracker : Tracker) : System :=
  { tracker, draining := 0, inCallback := false }

def dispatches (s : System) : Bool := s.tracker.dispatchingFinality && !s.inCallback

def step (s : System) : Action → System
  | .call op =>
    if op.enabled s.tracker then
      let r := op.exec s.tracker
      { s with tracker := r.1, draining := s.draining + r.2.toNat }
    else
      s
  | .drain =>
    if s.draining = 0 then
      s
    else
      { s with tracker := s.tracker.claimDispatch, draining := s.draining - 1 }
  | .dispatch unavailable =>
    if s.dispatches then
      let r := s.tracker.dispatchNext unavailable
      { s with tracker := r.1, inCallback := !(r.2 == .stop || r.2 == .skip) }
    else
      s
  | .callbackReturns => { s with inCallback := false }

def invokes (s : System) : Action → Option FinalityKey
  | .dispatch unavailable =>
    if s.dispatches then
      match (s.tracker.dispatchNext unavailable).2 with
      | .invoke key => some key
      | _ => none
    else
      none
  | _ => none

def quiescent (s : System) : Bool :=
  s.draining == 0 && !s.tracker.dispatchingFinality && s.tracker.finalityDeferrals == 0

end System
end Validations
