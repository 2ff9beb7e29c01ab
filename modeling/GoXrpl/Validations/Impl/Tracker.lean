import GoXrpl.Basic
import Mathlib.Data.List.AList

/-!
This module contains the state of the validation tracker and the admission tests that do not
touch the finality queue.
-/

namespace Validations

abbrev LedgerID := Hash256

abbrev NodeID := Vector UInt8 20

abbrev Time := Int

def minute : Time := 60 * 1000000000

def validationCurrentWall : Time := 5 * minute
def validationCurrentLocal : Time := 3 * minute
def validationCurrentEarly : Time := 3 * minute
def validationSetExpires : Time := 10 * minute

structure Validation where
  ledgerID : LedgerID
  ledgerSeq : Nat
  nodeID : NodeID
  signTime : Time
  seenTime : Time
  full : Bool
  cookie : Nat
  deriving DecidableEq, Repr

inductive ValStatus where
  | current
  | stale
  | badSeq
  | multiple
  | conflicting
  deriving DecidableEq, Repr

def isCurrent (now signTime seenTime : Time) : Bool :=
  if ¬ now - validationCurrentEarly < signTime then
    false
  else if ¬ signTime < now + validationCurrentWall then
    false
  else if seenTime ≠ 0 ∧ ¬ seenTime < now + validationCurrentLocal then
    false
  else
    true

structure SeqEnforcer where
  seq : Nat
  when : Time
  deriving DecidableEq, Repr

namespace SeqEnforcer

def empty : SeqEnforcer := { seq := 0, when := 0 }

def advance (s : SeqEnforcer) (now : Time) (seq : Nat) : SeqEnforcer × Bool :=
  let s := if now - s.when > validationSetExpires then { s with seq := 0 } else s
  if seq ≤ s.seq then
    (s, false)
  else
    ({ seq := seq, when := now }, true)

end SeqEnforcer

structure SeqValidations where
  touched : Time
  byNode : AList (fun _ : NodeID => Validation)

structure LedgerValidations where
  vals : AList (fun _ : NodeID => Validation)
  lastAccess : Time

def LedgerValidations.touch (lv : LedgerValidations) (now : Time) : LedgerValidations :=
  { lv with lastAccess := now }

structure FinalityKey where
  ledgerID : LedgerID
  ledgerSeq : Nat
  deriving DecidableEq, Repr

def Validation.key (v : Validation) : FinalityKey :=
  { ledgerID := v.ledgerID, ledgerSeq := v.ledgerSeq }

structure FinalityNotification where
  key : FinalityKey
  generation : Nat
  deriving DecidableEq, Repr

structure Evidence where
  validations : AList (fun _ : LedgerID => LedgerValidations)
  byNode : AList (fun _ : NodeID => Validation)
  bySequence : AList (fun _ : Nat => SeqValidations)
  seqEnforcers : AList (fun _ : NodeID => SeqEnforcer)

structure Config where
  trusted : List NodeID
  negUNL : List NodeID
  quorum : Int
  onFullyValidated : Bool

structure Retention where
  minSeq : Nat
  keepLow : Nat
  keepHigh : Nat

structure Finality where
  retainedQuorum : Option FinalityKey
  fired : List FinalityKey
  pendingFinality : List FinalityNotification
  pendingGeneration : AList (fun _ : FinalityKey => Nat)
  finalityGeneration : Nat

structure Dispatcher where
  dispatchingFinality : Bool
  finalityDeferrals : Nat

/--
The `ValidationTracker`. Its clock and its live safety gate are not part of the state: what they
answer is an input of every operation that asks them.
-/
structure Tracker extends Evidence, Config, Retention, Finality, Dispatcher

namespace Tracker

def new (quorum : Int) : Tracker where
  validations := ∅
  byNode := ∅
  bySequence := ∅
  seqEnforcers := ∅
  trusted := []
  negUNL := []
  quorum := quorum
  onFullyValidated := false
  minSeq := 0
  keepLow := 0
  keepHigh := 0
  retainedQuorum := none
  fired := []
  pendingFinality := []
  pendingGeneration := ∅
  finalityGeneration := 0
  dispatchingFinality := false
  finalityDeferrals := 0

def trackBySequence (t : Tracker) (v : Validation) (now : Time) : Tracker × Validation :=
  let bucket := (t.bySequence.lookup v.ledgerSeq).getD { touched := now, byNode := ∅ }
  let bucket := { bucket with touched := now }
  match bucket.byNode.lookup v.nodeID with
  | some tracked =>
    if v.signTime - tracked.signTime > validationCurrentWall then
      let bucket := { bucket with byNode := bucket.byNode.insert v.nodeID v }
      ({ t with bySequence := t.bySequence.insert v.ledgerSeq bucket }, v)
    else
      ({ t with bySequence := t.bySequence.insert v.ledgerSeq bucket }, tracked)
  | none =>
    let bucket := { bucket with byNode := bucket.byNode.insert v.nodeID v }
    ({ t with bySequence := t.bySequence.insert v.ledgerSeq bucket }, v)

def advanceFloor (t : Tracker) (v : Validation) (now : Time) : Tracker × Bool :=
  let r := ((t.seqEnforcers.lookup v.nodeID).getD .empty).advance now v.ledgerSeq
  ({ t with seqEnforcers := t.seqEnforcers.insert v.nodeID r.1 }, r.2)

-- The status of a validation that does not exceed its node's floor.
def classify (tracked v : Validation) : ValStatus :=
  if tracked.ledgerID ≠ v.ledgerID then
    .conflicting
  else if tracked.signTime ≠ v.signTime then
    .conflicting
  else if tracked.cookie ≠ v.cookie then
    .multiple
  else
    .badSeq

-- An existing set keeps its access time: only reads touch it.
def record (t : Tracker) (v : Validation) (touch : Time) : Tracker :=
  let lv := (t.validations.lookup v.ledgerID).getD { vals := ∅, lastAccess := touch }
  let lv := { lv with vals := lv.vals.insert v.nodeID v }
  { t with validations := t.validations.insert v.ledgerID lv }

def replacesCurrent (t : Tracker) (v : Validation) : Bool :=
  match t.byNode.lookup v.nodeID with
  | none => true
  | some existing => existing.signTime < v.signTime

def touch (t : Tracker) (ledgerID : LedgerID) (now : Time) : Tracker :=
  match t.validations.lookup ledgerID with
  | none => t
  | some lv => { t with validations := t.validations.insert ledgerID (lv.touch now) }

-- `countTrustedExcludingNegUNLLocked` at a given sequence.
def countTrustedAtSeq (vals : AList (fun _ : NodeID => Validation)) (trusted negUNL : List NodeID)
    (seq : Nat) : Nat :=
  vals.entries.countP fun e =>
    e.2.full && trusted.contains e.1 && !negUNL.contains e.1 && e.2.ledgerSeq == seq

end Tracker
end Validations
