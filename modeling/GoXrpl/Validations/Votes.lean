import GoXrpl.Validations.Impl.Finality
import Mathlib.Data.Finset.Card
import GoXrpl.Transition.Run

/-!
This module contains what the tracker's indexes mean: which validators stand behind a pair of a
ledger and a sequence, when they form a quorum, and the history of one pair along a run.
-/

open List

namespace Validations

inductive Verdict where
  | lost
  | closed
  | satisfied
  deriving DecidableEq, Repr

namespace Tracker

def recorded (t : Tracker) (ledgerID : LedgerID) (nodeID : NodeID) : Option Validation :=
  (t.validations.lookup ledgerID).bind fun lv => lv.vals.lookup nodeID

def Counts (t : Tracker) (key : FinalityKey) (nodeID : NodeID) : Prop :=
  nodeID ∈ t.trusted ∧ nodeID ∉ t.negUNL ∧
    ∃ v ∈ t.recorded key.ledgerID nodeID, v.full ∧ v.ledgerSeq = key.ledgerSeq

section

theorem lawfulBEq_nodeID
    : LawfulBEq NodeID := inferInstance

attribute [local instance] lawfulBEq_nodeID

instance (t : Tracker) (key : FinalityKey) (nodeID : NodeID) : Decidable (t.Counts key nodeID) := by
  unfold Counts
  infer_instance

end

def voters (t : Tracker) (key : FinalityKey) : Finset NodeID :=
  t.trusted.toFinset.filter (t.Counts key)

def HasQuorum (t : Tracker) (key : FinalityKey) : Prop :=
  max 1 t.quorum ≤ (t.voters key).card

instance (t : Tracker) (key : FinalityKey) : Decidable (t.HasQuorum key) :=
  inferInstanceAs (Decidable (_ ≤ _))

def verdict (t : Tracker) (key : FinalityKey) (unavailable : Bool) : Verdict :=
  if t.HasQuorum key then (if unavailable then .closed else .satisfied) else .lost

variable {t : Tracker} {t' : Tracker}

@[simp]
theorem mem_voters : nodeID ∈ t.voters key ↔ t.Counts key nodeID := by
  simp only [voters, Finset.mem_filter, mem_toFinset, and_iff_right_iff_imp]
  intro h
  exact h.1

-- The counting loop runs over the nodes of the set, each of which it holds once.
theorem countTrustedAtSeq_eq_card (hlv : t.validations.lookup key.ledgerID = some lv)
    : countTrustedAtSeq lv.vals t.trusted t.negUNL key.ledgerSeq = (t.voters key).card := by
  unfold countTrustedAtSeq
  generalize hp : (fun e : (_ : NodeID) × Validation => e.2.full && t.trusted.contains e.1
    && !t.negUNL.contains e.1 && e.2.ledgerSeq == key.ledgerSeq) = p
  have hnodup : ((lv.vals.entries.filter p).map Sigma.fst).Nodup := by
    apply List.Nodup.sublist (filter_sublist.map _)
    exact lv.vals.nodupKeys
  rw [countP_eq_length_filter, ← length_map, ← toFinset_card_of_nodup hnodup]
  congr 1
  ext n
  simp only [mem_toFinset, mem_map, mem_filter, mem_voters, Counts, recorded, hlv,
    Option.bind_some, Option.mem_def, ← hp, Bool.and_eq_true, Bool.not_eq_true',
    contains_iff_mem, beq_iff_eq]
  constructor
  . intro h
    obtain ⟨e, ⟨hmem, ⟨⟨hfull, htrusted⟩, hneg⟩, hseq⟩, hn⟩ := h
    subst hn
    refine ⟨htrusted, by simpa using hneg, e.2, ?_, hfull, hseq⟩
    exact AList.mem_lookup_iff.mpr hmem
  intro h
  obtain ⟨htrusted, hneg, v, hv, hfull, hseq⟩ := h
  refine ⟨⟨n, v⟩, ⟨AList.mem_lookup_iff.mp hv, ⟨⟨hfull, htrusted⟩, by simpa using hneg⟩, hseq⟩, rfl⟩

theorem voters_eq_empty (hlv : t.validations.lookup key.ledgerID = none) : t.voters key = ∅ := by
  apply Finset.eq_empty_of_forall_notMem
  intro n hn
  obtain ⟨_, _, v, hv, _⟩ := mem_voters.mp hn
  simp [recorded, hlv] at hv

theorem quorumReached_iff : t.quorumReached key = true ↔ t.HasQuorum key := by
  unfold quorumReached HasQuorum
  split
  . next hlv =>
    rw [voters_eq_empty hlv]
    simp
  . next lv hlv =>
    rw [countTrustedAtSeq_eq_card hlv]
    generalize (t.voters key).card = count
    simp only [Bool.not_or, Bool.and_eq_true, Bool.not_eq_true', beq_eq_false_iff_ne, ne_eq,
      decide_eq_false_iff_not, not_lt]
    omega

theorem quorumReached_eq_false_iff : t.quorumReached key = false ↔ ¬ t.HasQuorum key := by
  rw [← quorumReached_iff, Bool.not_eq_true]

theorem hasQuorum_mono (hquorum : t'.quorum = t.quorum)
    (hcounts : ∀ nodeID, t.Counts key nodeID → t'.Counts key nodeID) (h : t.HasQuorum key)
    : t'.HasQuorum key := by
  have hcard : (t.voters key).card ≤ (t'.voters key).card := by
    apply Finset.card_le_card
    intro nodeID hnode
    rw [mem_voters] at hnode ⊢
    exact hcounts nodeID hnode
  unfold HasQuorum at h ⊢
  rw [hquorum]
  omega

theorem hasQuorum_of_recorded
    (hrecorded : t'.recorded = t.recorded) (hconfig : t'.toConfig = t.toConfig)
    : t'.HasQuorum key ↔ t.HasQuorum key := by
  have hcounts : ∀ nodeID, t'.Counts key nodeID ↔ t.Counts key nodeID := by
    intro nodeID
    unfold Counts
    rw [hrecorded, hconfig]
  have hquorum : t'.quorum = t.quorum := by rw [hconfig]
  constructor
  . exact hasQuorum_mono hquorum.symm fun nodeID => (hcounts nodeID).mp
  . exact hasQuorum_mono hquorum fun nodeID => (hcounts nodeID).mpr

theorem hasQuorum_congr
    (hevidence : t'.toEvidence = t.toEvidence) (hconfig : t'.toConfig = t.toConfig)
    : t'.HasQuorum key ↔ t.HasQuorum key := by
  apply hasQuorum_of_recorded _ hconfig
  unfold recorded
  rw [hevidence]

end Tracker

namespace Op

/--
What the operation finds out about a pair. The checks of a trust, quorum, negative UNL or gate
change look at every pair that has a validation.
-/
def judges (t : Tracker) (key : FinalityKey) (op : Op) : Option Verdict :=
  let t' := (op.exec t).1
  match op with
  | addStatus v now touch unavailable _ =>
    if (t.addStatus v now touch unavailable).2 = .current ∧ key = v.key then
      some (t'.verdict key unavailable)
    else
      none
  | setTrustedAndQuorum _ _ unavailable
  | updateTrustedQuorumAndNegativeUNL _ _ _ unavailable _
  | setNegativeUNL _ unavailable
  | setQuorumUnavailableFunc unavailable
  | recheckFinality unavailable
  | setFullyValidatedCallback true unavailable =>
    if key ∈ t'.finalityKeys then some (t'.verdict key (unavailable key)) else none
  | recheckFullyValidated k _ unavailable =>
    if key = k then some (t.verdict key unavailable) else none
  | expireOld _ _ _ =>
    if (t.validations.lookup key.ledgerID).isSome ∧
        t'.validations.lookup key.ledgerID = none then
      some .lost
    else
      none
  | flush => some .lost
  | _ => none

def marks (t : Tracker) (key : FinalityKey) : Op → Bool
  | recheckFullyValidated k now unavailable =>
    key = k && (t.recheckFullyValidated k now unavailable).2.2.2
  | _ => false

/--
The operation records a validation for the pair that does not replace its node's current one, so
that its status is stale and no check follows.
-/
def storesStale (t : Tracker) (key : FinalityKey) : Op → Bool
  | addStatus v now _ _ _ =>
    key = v.key && isCurrent now v.signTime v.seenTime && (t.advanceFloor v now).2
      && !decide (t.minSeq > 0 ∧ v.ledgerSeq < t.minSeq) && !t.replacesCurrent v
  | _ => false

end Op

def Tracker.examined (t : Tracker) : Option FinalityKey :=
  if t.finalityDeferrals > 0 then
    none
  else
    match t.pendingFinality with
    | [] => none
    | notification :: _ =>
      if t.pendingGeneration.lookup notification.key = some notification.generation then
        some notification.key
      else
        none

namespace System

def judges (s : System) (key : FinalityKey) : Action → Option Verdict
  | .call op => if op.enabled s.tracker then op.judges s.tracker key else none
  | .dispatch unavailable =>
    if s.dispatches ∧ s.tracker.examined = some key then
      some (s.tracker.verdict key unavailable)
    else
      none
  | _ => none

def reports (s : System) (key : FinalityKey) (a : Action) : Bool :=
  s.invokes a = some key || match a with
    | .call op => op.enabled s.tracker && op.marks s.tracker key
    | _ => false

def storesStale (s : System) (key : FinalityKey) : Action → Bool
  | .call op => op.enabled s.tracker && op.storesStale s.tracker key
  | _ => false

end System

/--
The last thing found out about a pair, and what happened to it since then.
-/
structure History where
  judged : Option Verdict
  unchecked : Bool
  reported : Bool
  deriving DecidableEq, Repr

namespace History

def observe (key : FinalityKey) (s : System) (a : Action) (h : History) : History :=
  let judged := s.judges key a
  let gained := s.storesStale key a && decide (¬ s.tracker.HasQuorum key)
    && decide ((s.step a).tracker.HasQuorum key)
  { judged := judged.or h.judged
    unchecked := judged.isNone && (h.unchecked || (h.judged != some .satisfied && gained))
    reported := s.reports key a || (h.reported && judged != some .lost) }

def step (key : FinalityKey) (sh : System × History) (a : Action) : System × History :=
  (sh.1.step a, sh.2.observe key sh.1 a)

end History

def history (s : System) (key : FinalityKey) (actions : List Action) : History :=
  (Transition.run (History.step key) (s, ⟨none, false, false⟩) actions).2

end Validations
