import GoXrpl.Transition.Run

namespace ValidatorList

inductive Disposition where
  | accepted
  | expired
  | pending
  | sameSequence
  | knownSequence
  | stale
deriving DecidableEq

/--
A list as the queue orders it. What else it carries is copied along and never read.
-/
structure PendingList where
  sequence : UInt32
  effective : Int
  expiration : Int
deriving DecidableEq

/--
The queue is a map by sequence, held in the ascending order in which every loop visits it.
-/
structure PublisherState where
  current : PendingList := ⟨0, 0, 0⟩
  maxSequence : Option UInt32 := none
  remaining : List PendingList := []
deriving DecidableEq

/--
One pass over the queue. The successor of an entry is the one of the queue before the pass.
-/
def normalize (sequence : UInt32) : List PendingList → List PendingList
  | [] => []
  | entry :: rest =>
    if entry.sequence ≤ sequence ∨ rest.head?.any (fun next => ¬ entry.effective < next.effective) then
      normalize sequence rest
    else
      entry :: normalize sequence rest

namespace PublisherState

variable (s : PublisherState) (list : PendingList) (sequence : UInt32) (now : Int)

def pending? : Option PendingList := s.remaining.find? (·.sequence = sequence)

def set : PublisherState :=
  { s with remaining := s.remaining.filter (·.sequence < list.sequence)
      ++ list :: s.remaining.filter (list.sequence < ·.sequence) }

def delete (sequences : List UInt32) : PublisherState :=
  { s with remaining := s.remaining.filter (·.sequence ∉ sequences) }

def recordMaxSequence : PublisherState :=
  if s.maxSequence.all (· < sequence) then { s with maxSequence := some sequence } else s

def normalizeRemaining : PublisherState :=
  { s with remaining := normalize s.current.sequence s.remaining }

def promotePendingSequence : PublisherState :=
  match s.pending? sequence with
  | none => s
  | some chosen =>
    if sequence ≤ s.current.sequence then
      s
    else
      (({ s with current := chosen }.delete [sequence]).recordMaxSequence sequence).normalizeRemaining

def promoteRemaining : UInt32 × PublisherState :=
  let s := s.normalizeRemaining
  let ready := s.remaining.takeWhile (·.effective ≤ now)
  match ready.getLast? with
  | none => (0, s)
  | some chosen => (chosen.sequence,
      ((s.promotePendingSequence chosen.sequence).delete (ready.map (·.sequence))).normalizeRemaining)

def applyPending : Disposition × PublisherState :=
  let known := s.maxSequence.any fun max => (s.pending? list.sequence).isSome
    ∨ (list.sequence ≤ max ∧ (s.pending? max).all fun entry => ¬ list.effective < entry.effective)
  if known then
    (.knownSequence, s)
  else
    (.pending, (s.set list).recordMaxSequence list.sequence)

def commit : (Disposition × UInt32) × PublisherState :=
  let s := s.normalizeRemaining
  if list.sequence < s.current.sequence then
    ((.stale, 0), s)
  else if list.sequence = s.current.sequence then
    ((.sameSequence, s.maxSequence.getD 0), s)
  else if list.expiration ≤ now ∨ list.effective ≤ now then
    let accepted :=
      if (s.pending? list.sequence).isSome then
        s.promotePendingSequence list.sequence
      else
        { s with current := list }.recordMaxSequence list.sequence
    let s := accepted.normalizeRemaining
    ((if list.expiration ≤ now then .expired else .accepted, s.maxSequence.getD 0), s)
  else
    let (disposition, queued) := s.applyPending list
    let s := queued.normalizeRemaining
    ((disposition, s.maxSequence.getD 0), s)

def revoke : PublisherState := { s with maxSequence := none, remaining := [] }

end PublisherState

/--
A list that reaches the commit, an accepted revocation, or a Tick.
-/
inductive Event (Publisher : Type) where
  | arrive (publisher : Publisher) (list : PendingList) (now : Int)
  | revoke (publisher : Publisher)
  | tick (now : Int)

/--
The states of the trusted publishers, each there from the start.
-/
abbrev Aggregator (Publisher : Type) : Type := Publisher → PublisherState

namespace Aggregator

variable [DecidableEq Publisher]

def step (a : Aggregator Publisher) : Event Publisher → Aggregator Publisher
  | .arrive publisher list now => Function.update a publisher ((a publisher).commit list now).2
  | .revoke publisher => Function.update a publisher (a publisher).revoke
  | .tick now => fun publisher => ((a publisher).promoteRemaining now).2

def run (events : List (Event Publisher)) : Aggregator Publisher :=
  Transition.run step (fun _ => {}) events

end Aggregator

end ValidatorList
