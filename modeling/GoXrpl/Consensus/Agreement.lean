import GoXrpl.Consensus.Impl.Agreement

open List

namespace Consensus

open Tally

theorem le_of_checkConsensusReached (htotal : total ≠ 0)
    (h : checkConsensusReached agreeing total countSelf minPct reachedMax false = true)
    : minPct * (total + if countSelf then 1 else 0)
        ≤ 100 * (agreeing + if countSelf then 1 else 0) := by
  unfold checkConsensusReached at h
  rw [if_neg htotal, if_neg Bool.false_ne_true] at h
  have hpct := of_decide_eq_true h
  rw [ge_iff_le, Nat.le_div_iff_mul_le (by omega)] at hpct
  rw [Nat.mul_comm 100]
  exact hpct

namespace Round

-- A set is held from the close of a round until its ledger is built.
def Holds (r : Round) : Prop :=
  r.phase = .establish ∨ r.buildInProgress = true → r.ourTxSet ≠ none

theorem Holds.step {r : Round} (h : r.Holds) (event : Event) : (r.step event).Holds := by
  cases event with
  | startRound =>
    dsimp only [Round.step]
    split
    . exact h
    . next hbuild => exact fun hheld => absurd hheld (by simp [hbuild])
  | closeLedger txSet =>
    cases txSet with
    | none => exact h
    | some txSet => exact fun _ => Option.some_ne_none txSet
  | updatePosition newTxSet =>
    dsimp only [Round.step]
    split
    . exact h
    . exact fun _ => Option.some_ne_none newTxSet
  | acceptLedger =>
    dsimp only [Round.step]
    split
    . next hphase => exact fun _ => h (.inl hphase)
    . exact h
  | commitAcceptedLedger failed =>
    dsimp only [Round.step]
    split
    . exact h
    . next hbuild => exact fun _ => h (.inr (by simpa using hbuild))

def run (events : List Event) : Round := events.foldl step newEngine

theorem holds_run (events : List Event) : (run events).Holds := by
  apply foldlRecOn events step
  . rintro (h | h) <;> cases h
  . exact fun r h event _ => h.step event

end Round

namespace Engine

def positions (e : Engine) : List TxSetID :=
  (e.purgePendingTrust.proposals.entries.filter fun p => e.trusted p.1).map fun p => p.2.txSet

def backing (e : Engine) (txSet : TxSetID) : Nat :=
  e.positions.countP (· = txSet)

structure MostPopular (e : Engine) (txSet : TxSetID) : Prop where
  backed : 0 < e.backing txSet
  most : ∀ other, e.backing other ≤ e.backing txSet

def self (e : Engine) : Nat :=
  if e.mode = .proposing then 1 else 0

structure Partitions (e : Engine) : Prop where
  total : e.countAgreement.1 + e.countAgreement.2 = e.positions.length
  agreeOurs : ∀ ours, e.haveOurs = some ours → e.countAgreement.1 = e.backing ours
  agreePopular : e.haveOurs = none →
    (∃ txSet, e.countAgreement.1 = e.backing txSet) ∧ ∀ txSet, e.backing txSet ≤ e.countAgreement.1
  reached : ∀ reachedMax, e.positions ≠ [] →
    checkConsensusReached e.countAgreement.1 (e.countAgreement.1 + e.countAgreement.2)
      (e.mode = .proposing) e.minConsensusPct reachedMax false = true →
    ∃ txSet, (∀ ours, e.haveOurs = some ours → txSet = ours)
      ∧ e.minConsensusPct * (e.positions.length + e.self) ≤ 100 * (e.backing txSet + e.self)

theorem foldl_ours (entries : List (Sigma fun _ : Validations.NodeID => Proposal))
    (trusted : Validations.NodeID → Bool) (ours : TxSetID) (count : Nat × Nat)
    : entries.foldl
        (fun count p =>
          if !trusted p.1 then count
          else if p.2.txSet = ours then (count.1 + 1, count.2)
          else (count.1, count.2 + 1))
        count
      = (count.1 + ((entries.filter fun p => trusted p.1).map fun p => p.2.txSet).countP (· = ours),
         count.2 + ((entries.filter fun p => trusted p.1).map fun p => p.2.txSet).countP (· ≠ ours)) := by
  induction entries generalizing count with
  | nil => rfl
  | cons p entries ih =>
    rw [foldl_cons, ih]
    by_cases htrusted : trusted p.1
    . rw [filter_cons_of_pos (by simpa using htrusted), map_cons]
      by_cases hours : p.2.txSet = ours
      . simp [htrusted, hours]
        omega
      simp [htrusted, hours]
      omega
    rw [filter_cons_of_neg (by simpa using htrusted)]
    simp [htrusted]

theorem countAgreement_ours {e : Engine} (hours : e.haveOurs = some ours)
    : e.countAgreement = (e.backing ours, e.positions.countP (· ≠ ours)) := by
  have hpurged : e.purgePendingTrust.haveOurs = some ours := hours
  unfold countAgreement
  dsimp only
  rw [hpurged]
  dsimp only
  rw [foldl_ours]
  simp only [Nat.zero_add]
  rfl

theorem length_positions (e : Engine) (ours : TxSetID)
    : e.backing ours + e.positions.countP (· ≠ ours) = e.positions.length := by
  rw [length_eq_countP_add_countP fun txSet => txSet = ours]
  simp only [decide_eq_true_eq]
  rfl

def counts (e : Engine) : Counts TxSetID :=
  e.positions.foldl Counts.add ∅

theorem countAgreement_observer {e : Engine} (hours : e.haveOurs = none)
    : e.countAgreement = (e.counts.best, e.counts.others e.counts.best) := by
  have hpurged : e.purgePendingTrust.haveOurs = none := hours
  unfold countAgreement
  dsimp only
  rw [hpurged]
  unfold counts positions
  rw [foldl_map, foldl_filter]
  rfl

theorem lookup_counts (e : Engine) (txSet : TxSetID)
    : (e.counts.lookup txSet).getD 0 = e.backing txSet := by
  unfold counts
  rw [Counts.getD_lookup_foldl, AList.lookup_empty, Option.getD_none, Nat.zero_add]
  rfl

theorem backing_le_best (e : Engine) (txSet : TxSetID) : e.backing txSet ≤ e.counts.best := by
  rw [← lookup_counts]
  exact e.counts.getD_lookup_le_best txSet

theorem exists_backing_eq_best (e : Engine) : ∃ txSet, e.counts.best = e.backing txSet := by
  by_cases hpos : 0 < e.counts.best
  . obtain ⟨txSet, hlookup⟩ := e.counts.best_attained hpos
    refine ⟨txSet, ?_⟩
    rw [← lookup_counts, hlookup]
    rfl
  refine ⟨Hash256.zero, ?_⟩
  have hle := e.backing_le_best Hash256.zero
  omega

theorem lookup_counts_of_mostPopular {e : Engine} (h : e.MostPopular txSet)
    : e.counts.lookup txSet = some e.counts.best := by
  obtain ⟨other, hother⟩ := e.exists_backing_eq_best
  have hbest : e.backing txSet = e.counts.best := by
    have hle := e.backing_le_best txSet
    have hmost := h.most other
    omega
  have hbacked := h.backed
  rw [← hbest, ← lookup_counts]
  rw [← lookup_counts] at hbacked
  cases hlookup : e.counts.lookup txSet with
  | none =>
    rw [hlookup] at hbacked
    cases hbacked
  | some n => rfl

theorem mostPopular_of_lookup {e : Engine} (hpos : 0 < e.counts.best)
    (h : e.counts.lookup txSet = some e.counts.best)
    : e.MostPopular txSet := by
  have hbest : e.backing txSet = e.counts.best := by
    rw [← lookup_counts, h]
    rfl
  constructor
  . rw [hbest]
    exact hpos
  intro other
  rw [hbest]
  exact e.backing_le_best other

theorem agree_add_disagree_observer {e : Engine} (hours : e.haveOurs = none)
    : e.countAgreement.1 + e.countAgreement.2 + e.counts.winners * e.counts.best
        = e.positions.length + e.counts.best := by
  have htotal := e.counts.others_add_winners
  have hlength : Counts.total e.counts.entries = e.positions.length := by
    unfold counts
    rw [Counts.total_foldl]
    exact Nat.zero_add _
  rw [countAgreement_observer hours]
  omega

theorem total_observer_iff {e : Engine} (hours : e.haveOurs = none)
    : e.countAgreement.1 + e.countAgreement.2 = e.positions.length
      ↔ ∀ txSet txSet', e.MostPopular txSet → e.MostPopular txSet' → txSet = txSet' := by
  have hsum := agree_add_disagree_observer hours
  constructor
  . intro htotal txSet txSet' h h'
    have hpos : 0 < e.counts.best := by
      have hle := e.backing_le_best txSet
      have hbacked := h.backed
      omega
    have hwinners : e.counts.winners ≤ 1 := by
      by_contra hmany
      have hmul : 2 * e.counts.best ≤ e.counts.winners * e.counts.best :=
        Nat.mul_le_mul_right _ (by omega)
      omega
    exact Counts.eq_of_winners_le_one hwinners (lookup_counts_of_mostPopular h)
      (lookup_counts_of_mostPopular h')
  intro hunique
  by_cases hpos : 0 < e.counts.best
  . have hle : e.counts.winners ≤ 1 := by
      apply Counts.winners_le_one
      intro txSet txSet' h h'
      exact hunique txSet txSet' (mostPopular_of_lookup hpos h) (mostPopular_of_lookup hpos h')
    have hge := Counts.winners_pos hpos
    have hone : e.counts.winners = 1 := by omega
    rw [hone, Nat.one_mul] at hsum
    exact Nat.add_right_cancel hsum
  have hzero : e.counts.best = 0 := by omega
  rw [hzero, Nat.mul_zero] at hsum
  exact hsum

theorem partitions_of_total {e : Engine}
    (htotal : e.countAgreement.1 + e.countAgreement.2 = e.positions.length)
    : e.Partitions where
  total := htotal
  agreeOurs ours hours := by
    rw [countAgreement_ours hours]
  agreePopular hours := by
    rw [countAgreement_observer hours]
    exact ⟨e.exists_backing_eq_best, e.backing_le_best⟩
  reached reachedMax hpositions h := by
    have hagree : ∃ txSet, (∀ ours, e.haveOurs = some ours → txSet = ours)
        ∧ e.countAgreement.1 = e.backing txSet := by
      cases hours : e.haveOurs with
      | some ours =>
        refine ⟨ours, ?_, ?_⟩
        . intro ours' h'
          exact Option.some.inj h'
        . rw [countAgreement_ours hours]
      | none =>
        obtain ⟨txSet, htxSet⟩ := e.exists_backing_eq_best
        refine ⟨txSet, ?_, ?_⟩
        . intro ours' h'
          cases h'
        . rw [countAgreement_observer hours, htxSet]
    obtain ⟨txSet, hours, htxSet⟩ := hagree
    refine ⟨txSet, hours, ?_⟩
    have hne : e.positions.length ≠ 0 := fun hzero => hpositions (length_eq_zero_iff.mp hzero)
    rw [htotal] at h
    have hle := le_of_checkConsensusReached hne h
    rw [htxSet] at hle
    simp only [decide_eq_true_eq] at hle
    exact hle

theorem partitions_iff_or (e : Engine)
    : e.Partitions ↔ e.haveOurs ≠ none
        ∨ ∀ txSet txSet', e.MostPopular txSet → e.MostPopular txSet' → txSet = txSet' := by
  constructor
  . intro h
    by_cases hours : e.haveOurs = none
    . exact .inr ((total_observer_iff hours).mp h.total)
    . exact .inl hours
  intro h
  apply partitions_of_total
  cases hours : e.haveOurs with
  | some ours =>
    rw [countAgreement_ours hours]
    exact e.length_positions ours
  | none =>
    apply (total_observer_iff hours).mpr
    rcases h with h | h
    . exact absurd hours h
    . exact h

theorem haveOurs_of_checkConvergence {e : Engine} (hround : e.toRound = Round.run events)
    (h : e.checkConvergence roundTime ≠ none)
    : e.haveOurs ≠ none := by
  have hphase : e.phase = .establish := by
    by_contra hother
    apply h
    rw [checkConvergence, if_pos (.inl hother)]
  have hset : e.ourTxSet ≠ none := by
    have hholds := Round.holds_run events
    rw [← hround] at hholds
    exact hholds (.inl hphase)
  unfold haveOurs
  split
  . exact Option.some_ne_none _
  . exact hset

/--
The counts are a partition exactly when the engine has a position of its own or no two sets share
the largest number of peers; an engine that asks for them has one.
-/
theorem partitions_iff (e : Engine)
    : (e.Partitions ↔ e.haveOurs ≠ none
        ∨ ∀ txSet txSet', e.MostPopular txSet → e.MostPopular txSet' → txSet = txSet')
      ∧ ∀ events roundTime, e.toRound = Round.run events →
        e.checkConvergence roundTime ≠ none → e.Partitions := by
  refine ⟨partitions_iff_or e, ?_⟩
  intro events roundTime hround h
  exact (partitions_iff_or e).mpr (.inl (haveOurs_of_checkConvergence hround h))

namespace Sample

-- An observer that has heard of two trusted peers with different sets
def observer : Engine where
  phase := .phaseOpen
  buildInProgress := false
  proposals := ((∅ : AList fun _ : Validations.NodeID => Proposal).insert (.replicate 20 1)
    ⟨.replicate 32 1⟩).insert (.replicate 20 2) ⟨.replicate 32 2⟩
  pendingTrustPurge := []
  trusted := fun _ => true
  ourPosition := none
  ourTxSet := none
  mode := .observing
  timing := { ledgerMinConsensus := 0, ledgerMaxConsensus := 0, ledgerAbandonConsensus := 0 }
  prevProposers := 0
  prevRoundTime := 0
  minConsensusPct := 80
  haveCloseTimeConsensus := false
  allStalled := none
  proposersFinished := none
  abandonDeadlineExceeded := fun _ => false

theorem observer_tie
    : observer.positions.length = 2
      ∧ observer.countAgreement = (1, 0)
      ∧ observer.checkConsensusState 1 1 1 = .yes
      ∧ ¬ observer.Partitions := by
  refine ⟨by decide +kernel, by decide +kernel, by decide +kernel, ?_⟩
  intro h
  have htotal := h.total
  revert htotal
  decide +kernel

-- The same observer after it has closed its ledger
def closed : Engine where
  __ := observer
  phase := .establish
  ourTxSet := some (.replicate 32 1)

def events : List Round.Event := [.startRound, .closeLedger closed.ourTxSet]

theorem closed_partitions
    : closed.toRound = Round.run events
      ∧ closed.checkConvergence 1 = some .no
      ∧ closed.countAgreement = (1, 1)
      ∧ closed.Partitions := by
  have hstate : closed.checkConvergence 1 = some .no := by decide +kernel
  refine ⟨rfl, hstate, by decide +kernel, (partitions_iff closed).2 events 1 rfl ?_⟩
  rw [hstate]
  exact Option.some_ne_none _

end Sample

end Engine

end Consensus
