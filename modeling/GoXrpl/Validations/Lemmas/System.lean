import GoXrpl.Validations.Lemmas.Evidence

namespace Validations

abbrev run (s : System) (actions : List Action) : System := Transition.run System.step s actions

namespace Tracker

theorem claimDispatch_eq (t : Tracker)
    : ∃ b, t.claimDispatch = { t with dispatchingFinality := b } := by
  unfold claimDispatch
  split
  . exact ⟨_, rfl⟩
  . exact ⟨_, rfl⟩

def popFinality (t : Tracker) (key : FinalityKey) (rest : List FinalityNotification) : Tracker :=
  { t with pendingFinality := rest, pendingGeneration := t.pendingGeneration.erase key }

structure Heads (t : Tracker) (notification : FinalityNotification)
    (rest : List FinalityNotification) : Prop where
  deferrals : ¬ t.finalityDeferrals > 0
  pending : t.pendingFinality = notification :: rest
  generation : t.pendingGeneration.lookup notification.key = some notification.generation

theorem Heads.mem {t : Tracker} (h : t.Heads notification rest)
    : notification.key ∈ t.pendingGeneration := by
  rw [← AList.lookup_isSome, h.generation]
  rfl

inductive DispatchCase (t : Tracker) (unavailable : Bool) : Tracker × Dispatch → Prop where
  | stop (h : t.finalityDeferrals > 0 ∨ t.pendingFinality = [])
    : DispatchCase t unavailable ({ t with dispatchingFinality := false }, .stop)
  | outdated (notification : FinalityNotification) (rest : List FinalityNotification)
    (hdeferrals : ¬ t.finalityDeferrals > 0) (hpending : t.pendingFinality = notification :: rest)
    (hgeneration : t.pendingGeneration.lookup notification.key ≠ some notification.generation)
    : DispatchCase t unavailable ({ t with pendingFinality := rest }, .skip)
  | cancel (notification : FinalityNotification) (rest : List FinalityNotification)
    (h : t.Heads notification rest)
    (hcallback : t.HasQuorum notification.key → unavailable = false → t.onFullyValidated = false)
    : DispatchCase t unavailable
        ((t.popFinality notification.key rest).cancelFinality notification.key, .skip)
  | invoke (notification : FinalityNotification) (rest : List FinalityNotification)
    (h : t.Heads notification rest)
    (hquorum : t.HasQuorum notification.key) (hgate : unavailable = false)
    : DispatchCase t unavailable (t.popFinality notification.key rest, .invoke notification.key)

theorem dispatchNext_case (t : Tracker) (unavailable : Bool)
    : DispatchCase t unavailable (t.dispatchNext unavailable) := by
  unfold dispatchNext
  split
  . next hdeferrals => exact .stop (.inl hdeferrals)
  . next hdeferrals =>
    split
    . next hpending => exact .stop (.inr hpending)
    . next notification rest hpending =>
      have hquorum : (t.popFinality notification.key rest).quorumReached notification.key =
          t.quorumReached notification.key := rfl
      dsimp only
      split
      . next hgeneration => exact .outdated notification rest hdeferrals hpending hgeneration
      . next hgeneration =>
        have hheads : t.Heads notification rest := ⟨hdeferrals, hpending, not_ne_iff.mp hgeneration⟩
        split
        . next heligible =>
          apply DispatchCase.cancel notification rest hheads
          intro h hgate
          rw [← quorumReached_iff, ← hquorum] at h
          have heligible : (!(t.popFinality notification.key rest).finalityEligible
            notification.key true unavailable || !t.onFullyValidated) = true := heligible
          simpa [finalityEligible, hgate, h] using heligible
        . next heligible =>
          simp only [finalityEligible, Bool.not_true, Bool.false_or, Bool.not_and, Bool.not_not,
            Bool.or_eq_true, Bool.not_eq_true', not_or, Bool.not_eq_false,
            Bool.not_eq_true] at heligible
          obtain ⟨⟨h, hgate⟩, _⟩ := heligible
          apply DispatchCase.invoke notification rest hheads _ hgate
          rw [← quorumReached_iff, ← hquorum]
          exact h

theorem dispatchNext_invoke {t : Tracker} (h : (t.dispatchNext unavailable).2 = .invoke key)
    : key ∈ t.pendingGeneration ∧ t.HasQuorum key ∧ unavailable = false := by
  generalize hr : t.dispatchNext unavailable = r at h
  cases hr ▸ t.dispatchNext_case unavailable with
  | stop => contradiction
  | outdated => contradiction
  | cancel => contradiction
  | invoke notification rest hheads hquorum hgate =>
    have hkey : notification.key = key := by simpa using h
    subst hkey
    exact ⟨hheads.mem, hquorum, hgate⟩

theorem dispatchNext_keeps (t : Tracker) (unavailable : Bool)
    : (t.dispatchNext unavailable).1.toEvidence = t.toEvidence ∧
        (t.dispatchNext unavailable).1.toConfig = t.toConfig ∧
        (t.dispatchNext unavailable).1.retainedQuorum = t.retainedQuorum := by
  generalize hr : t.dispatchNext unavailable = r
  cases hr ▸ t.dispatchNext_case unavailable with
  | stop => exact ⟨rfl, rfl, rfl⟩
  | outdated => exact ⟨rfl, rfl, rfl⟩
  | cancel => exact ⟨rfl, rfl, rfl⟩
  | invoke => exact ⟨rfl, rfl, rfl⟩

end Tracker

namespace System

def accepts (s : System) : Action → Option (Validation × Time)
  | .call op => if op.enabled s.tracker then op.accepted s.tracker else none
  | _ => none

def reads (s : System) (nodeID : NodeID) : Action → Option Time
  | .call op => if op.enabled s.tracker then op.reads nodeID else none
  | _ => none

theorem step_cases (s : System) (a : Action)
    : (∃ op, a = .call op ∧ op.enabled s.tracker = true ∧
          (s.step a).tracker = (op.exec s.tracker).1) ∨
        ((∀ op, a = .call op → op.enabled s.tracker = false) ∧ s.accepts a = none ∧
          (s.step a).tracker.toEvidence = s.tracker.toEvidence ∧
          (s.step a).tracker.toConfig = s.tracker.toConfig ∧
          (s.step a).tracker.retainedQuorum = s.tracker.retainedQuorum) := by
  cases a with
  | call op =>
    by_cases henabled : op.enabled s.tracker = true
    . left
      exact ⟨op, rfl, henabled, by simp [step, henabled]⟩
    right
    simp_all [step, accepts]
  | drain =>
    right
    obtain ⟨b, hb⟩ := s.tracker.claimDispatch_eq
    by_cases hdraining : s.draining = 0
    . simp [step, accepts, hdraining]
    . simp [step, accepts, hdraining, hb]
  | dispatch unavailable =>
    right
    by_cases hdispatches : s.dispatches = true
    . have hkeeps := s.tracker.dispatchNext_keeps unavailable
      simp [step, accepts, hdispatches, hkeeps]
    . simp [step, accepts, hdispatches]
  | callbackReturns =>
    right
    exact ⟨by simp, rfl, rfl, rfl, rfl⟩

variable {s : System}

theorem step_recorded (h : (s.step a).tracker.recorded l nodeID = some v)
    : s.tracker.recorded l nodeID = some v ∨
        ∃ now, s.accepts a = some (v, now) ∧ l = v.ledgerID ∧ nodeID = v.nodeID := by
  cases s.step_cases a with
  | inl hop =>
    obtain ⟨op, ha, henabled, htracker⟩ := hop
    subst ha
    rw [htracker] at h
    simp only [accepts, henabled, if_true]
    exact Op.exec_recorded h
  | inr hother =>
    left
    rw [← h]
    unfold Tracker.recorded
    rw [hother.2.2.1]

theorem step_floor_of_accepts (h : s.accepts a = some (v, now))
    : (s.step a).tracker.floor v.nodeID = some { seq := v.ledgerSeq, when := now } := by
  cases s.step_cases a with
  | inl hop =>
    obtain ⟨op, ha, henabled, htracker⟩ := hop
    subst ha
    simp only [accepts, henabled, if_true] at h
    rw [htracker]
    exact Op.exec_floor_of_accepted h
  | inr hother =>
    rw [hother.2.1] at h
    contradiction

theorem lt_of_accepts (h : s.accepts a = some (v, now)) (he : s.tracker.floor v.nodeID = some e)
    (hwhen : now - e.when ≤ validationSetExpires)
    : e.seq < v.ledgerSeq := by
  cases s.step_cases a with
  | inl hop =>
    obtain ⟨op, ha, henabled, _⟩ := hop
    subst ha
    simp only [accepts, henabled, if_true] at h
    exact Op.lt_of_accepted h he hwhen
  | inr hother =>
    rw [hother.2.1] at h
    contradiction

theorem reads_of_accepts (h : s.accepts a = some (v, now)) : s.reads v.nodeID a = some now := by
  unfold accepts at h
  split at h
  . next op =>
    split at h
    . next henabled =>
      obtain ⟨touch, unavailable, drainFinality, hop, hcurrent, _⟩ := Op.accepted_eq_some h
      subst hop
      simp [reads, henabled, Op.reads, hcurrent]
    . contradiction
  . contradiction

theorem step_floor_of_not_accepts (he : s.tracker.floor nodeID = some e) (hflush : a ≠ .call .flush)
    (haccepts : ∀ v now, s.accepts a = some (v, now) → v.nodeID ≠ nodeID)
    (hwhen : ∀ now, s.reads nodeID a = some now → now - e.when ≤ validationSetExpires)
    : (s.step a).tracker.floor nodeID = some e := by
  cases s.step_cases a with
  | inl hop =>
    obtain ⟨op, ha, henabled, htracker⟩ := hop
    subst ha
    simp only [accepts, reads, henabled, if_true] at haccepts hwhen
    rw [htracker]
    apply Op.exec_floor_of_not_accepted he _ haccepts hwhen
    intro hop
    exact hflush (by rw [hop])
  | inr hother =>
    rw [← he]
    unfold Tracker.floor
    rw [hother.2.2.1]

theorem step_supersedes (s : System) (a : Action)
    : Tracker.Supersedes (s.step a).tracker.retainedQuorum s.tracker.retainedQuorum := by
  cases s.step_cases a with
  | inl hop =>
    obtain ⟨op, _, _, htracker⟩ := hop
    rw [htracker]
    apply Op.exec_supersedes
  | inr hother =>
    apply Tracker.Supersedes.of_eq
    exact hother.2.2.2.2

theorem invokes_eq_some (h : s.invokes a = some key)
    : ∃ unavailable, a = .dispatch unavailable ∧ s.dispatches = true ∧
        (s.tracker.dispatchNext unavailable).2 = .invoke key := by
  unfold invokes at h
  split at h
  . next unavailable =>
    split at h
    . next hdispatches =>
      split at h
      . next k hk =>
        have hkey : k = key := by simpa using h
        subst hkey
        exact ⟨unavailable, rfl, hdispatches, hk⟩
      . contradiction
    . contradiction
  . contradiction

theorem hasQuorum_of_invokes (h : s.invokes a = some key) : s.tracker.HasQuorum key := by
  obtain ⟨_, _, _, hinvoke⟩ := invokes_eq_some h
  exact (Tracker.dispatchNext_invoke hinvoke).2.1

end System

def Action.keepsVoting : Action → Bool
  | .call op => op.keepsVoting
  | _ => true

theorem System.step_voting {s : System} (h : a.keepsVoting = true)
    : (s.step a).tracker.trusted = s.tracker.trusted ∧
        (s.step a).tracker.negUNL = s.tracker.negUNL ∧
        (s.step a).tracker.quorum = s.tracker.quorum := by
  cases s.step_cases a with
  | inl hop =>
    obtain ⟨op, ha, _, htracker⟩ := hop
    subst ha
    obtain ⟨_, hconfig⟩ := Op.exec_toConfig (t := s.tracker) h
    rw [htracker, hconfig]
    exact ⟨rfl, rfl, rfl⟩
  | inr hother =>
    rw [hother.2.2.2.1]
    exact ⟨rfl, rfl, rfl⟩

end Validations
