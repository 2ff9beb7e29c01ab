import GoXrpl.Validations.Lemmas.Dispatch

namespace Validations
namespace Op

def keepsCallback : Op → Bool
  | setFullyValidatedCallback installed _ => installed
  | _ => true

def clockSet : Op → Bool
  | addStatus _ now _ _ _ => validationCurrentEarly ≤ now
  | _ => true

variable {t t' : Tracker} {op : Op}

theorem reconfigured_callback
    (h : op.reconfigured t = some (t', unavailable)) (hcallback : t.onFullyValidated = true)
    : t'.onFullyValidated = true := by
  unfold reconfigured at h
  split at h
  all_goals
    cases h
    try first
      | exact hcallback
      | rfl

theorem exec_callback (hop : op.keepsCallback = true) (h : t.onFullyValidated = true)
    : (op.exec t).1.onFullyValidated = true := by
  cases op using Op.kinds t with
  | inert op hinert =>
    rw [(exec_of_inert hinert).1]
    exact h
  | reconfigured op t' unavailable hreconfigured =>
    rw [(exec_of_reconfigured hreconfigured).1, (Tracker.recheckFinality_frame _ _).1.config]
    exact reconfigured_callback hreconfigured h
  | removeCallback => contradiction
  | addStatus =>
    simp only [exec, (Tracker.addStatus_keeps ..).1]
    exact h
  | recheckFullyValidated =>
    simp only [exec, (recheckFullyValidated_keeps ..).2.2]
    exact h
  | expireOld =>
    simp only [exec, (Tracker.expireOld_expired ..).config]
    exact h
  | flush => exact h

theorem signTime_of_isCurrent
    (h : isCurrent now signTime seenTime = true) (hnow : validationCurrentEarly ≤ now)
    : signTime ≠ 0 := by
  unfold isCurrent at h
  split at h
  . contradiction
  . next hearly =>
    intro hzero
    rw [hzero, not_not] at hearly
    have hnow' : now < validationCurrentEarly := Int.lt_of_sub_neg hearly
    exact absurd hnow (not_le.mpr hnow')

theorem exec_signed (hop : op.clockSet = true) (h : t.Signed) : (op.exec t).1.Signed := by
  intro l nodeID v hv
  cases exec_recorded hv with
  | inl hold => exact h l nodeID v hold
  | inr hnew =>
    obtain ⟨now, haccepted, _⟩ := hnew
    obtain ⟨touch, unavailable, drainFinality, heq, hcurrent, _⟩ := accepted_eq_some haccepted
    subst heq
    apply signTime_of_isCurrent hcurrent
    simpa [clockSet] using hop

theorem exec_queued (hcallback : t.onFullyValidated = true) (h : t.Queued)
    : (op.exec t).1.Queued := by
  cases op using Op.kinds t with
  | inert op hinert =>
    have hfinality := (exec_of_inert (t := t) hinert).2.1
    apply h.of_eq <;> rw [hfinality]
  | reconfigured op t' unavailable hreconfigured =>
    obtain ⟨hexec, _, hfinality, _⟩ := exec_of_reconfigured hreconfigured
    rw [hexec]
    refine Tracker.KeepsQueue.recheckFinality ?_ Tracker.Queued.keeps unavailable
    apply h.of_eq <;> rw [hfinality]
  | removeCallback => exact h.of_eq rfl rfl rfl
  | addStatus v now touch unavailable => exact h.addStatus v now touch unavailable
  | recheckFullyValidated key now unavailable =>
    obtain ⟨_, heq⟩ := touch_eq t key.ledgerID now
    simp only [exec, Tracker.recheckFullyValidated]
    split
    . exact h.cancelFinality key
    apply Tracker.Queued.settleRecheck
    . rw [heq]
      exact h.of_eq rfl rfl rfl
    rw [heq]
    exact hcallback
  | expireOld minSeq now sample => exact h.expireOld minSeq now sample
  | flush =>
    constructor
    . intro key generation hkey
      contradiction
    intro key hkey
    contradiction

theorem judges_of_inert (h : op.inert = true) (key : FinalityKey) : op.judges t key = none := by
  cases op <;> first | contradiction | rfl

theorem judges_of_reconfigured (h : op.reconfigured t = some (t', unavailable)) (key : FinalityKey)
    : op.judges t key =
        if key ∈ t'.finalityKeys then some (t'.verdict key (unavailable key)) else none := by
  obtain ⟨hexec, _⟩ := exec_of_reconfigured h
  have hframe := (t'.recheckFinality_frame unavailable).1
  have hkeys : (op.exec t).1.finalityKeys = t'.finalityKeys := by
    rw [hexec]
    unfold Tracker.finalityKeys
    rw [hframe.evidence]
  have hverdict : ∀ b, (op.exec t).1.verdict key b = t'.verdict key b := by
    intro b
    rw [hexec, hframe.verdict_eq]
  have hjudges : op.judges t key = if key ∈ (op.exec t).1.finalityKeys then
      some ((op.exec t).1.verdict key (unavailable key)) else none := by
    unfold reconfigured at h
    split at h
    all_goals
      cases h
      try rfl
  rw [hjudges, hkeys, hverdict]

theorem exec_effect (hop : op.keepsCallback = true)
    (hcallback : t.onFullyValidated = true) (hsigned : t.Signed) (key : FinalityKey)
    : Tracker.Effect key (op.judges t key) (op.marks t key = true) t (op.exec t).1 := by
  cases op using Op.kinds t with
  | inert op hinert =>
    rw [judges_of_inert hinert]
    apply Tracker.Effect.of_same
    apply Tracker.Same.of_eq
    exact (exec_of_inert hinert).2.1
  | reconfigured op t' unavailable hreconfigured =>
    obtain ⟨hexec, _, hfinality, _⟩ := exec_of_reconfigured hreconfigured
    rw [judges_of_reconfigured hreconfigured, hexec]
    apply Tracker.Effect.same_left (Tracker.Same.of_eq hfinality)
    apply Tracker.Effect.weaken _ False.elim
    apply Tracker.recheckFinality_effect
    exact reconfigured_callback hreconfigured hcallback
  | removeCallback => contradiction
  | addStatus v now touch unavailable =>
    apply Tracker.Effect.weaken _ False.elim
    exact Tracker.addStatus_effect v now touch unavailable key hcallback
  | recheckFullyValidated k now unavailable =>
    apply Tracker.Effect.weaken
      (Tracker.recheckFullyValidated_effect k key now unavailable hcallback hsigned)
    simp [marks]
  | expireOld minSeq now sample =>
    apply Tracker.Effect.weaken _ False.elim
    exact Tracker.expireOld_effect t minSeq now sample key
  | flush => constructor <;> simp [judges, exec, Tracker.flush]

theorem counts_of_recorded (hconfig : t'.toConfig = t.toConfig)
    (hrecorded : ∀ v, t'.recorded key.ledgerID nodeID = some v →
      t.recorded key.ledgerID nodeID = some v) (h : t'.Counts key nodeID)
    : t.Counts key nodeID := by
  unfold Tracker.Counts at h ⊢
  rw [hconfig] at h
  obtain ⟨htrusted, hneg, v, hv, hfull⟩ := h
  exact ⟨htrusted, hneg, v, hrecorded v hv, hfull⟩

theorem addStatus_quorum (drainFinality : Bool)
    (hstatus : ¬ ((t.addStatus v now touch unavailable).2 = .current ∧ key = v.key))
    (hstale : (Op.addStatus v now touch unavailable drainFinality).storesStale t key = false)
    (h : (t.addStatus v now touch unavailable).1.HasQuorum key)
    : t.HasQuorum key := by
  have hconfig := (t.addStatus_keeps v now touch unavailable).1
  apply Tracker.hasQuorum_mono _ _ h
  . rw [hconfig]
  intro nodeID hcounts
  apply counts_of_recorded hconfig _ hcounts
  obtain ⟨_, _, _, hw, _, hseq⟩ := hcounts
  intro u hu
  have hsame := Option.some.inj (hw.symm.trans hu)
  cases Tracker.addStatus_recorded hu with
  | inl hold => exact hold
  | inr hnew =>
    obtain ⟨hcurrent, hfloor, huv, hledger, _⟩ := hnew
    have hkey : key = v.key := by
      cases key
      rw [hsame, huv] at hseq
      simp_all [Validation.key]
    -- The validation was recorded, and it was neither stale nor checked.
    obtain ⟨buckets, hbuckets⟩ := t.trackBySequence_fst v now
    have hadvance : ({ t with bySequence := buckets }.advanceFloor v now).2 = true := hfloor
    have hreplaces : ({ t with bySequence := buckets }.advanceFloor v now).1.replacesCurrent v =
      t.replacesCurrent v := rfl
    have hminSeq : ({ t with bySequence := buckets }.advanceFloor v now).1.minSeq =
      t.minSeq := rfl
    by_cases hmin : t.minSeq > 0 ∧ v.ledgerSeq < t.minSeq
    . simp only [Tracker.addStatus, hcurrent, Bool.not_true, Bool.false_eq_true, if_false,
        hbuckets, hadvance, Tracker.addMonotonic, hminSeq, if_pos hmin] at hu
      exact hu
    exfalso
    simp only [storesStale, hkey, hcurrent, hfloor, hmin, decide_true, decide_false,
      Bool.not_false, Bool.and_self, Bool.true_and, Bool.not_eq_false'] at hstale
    apply hstatus
    simp only [Tracker.addStatus, hcurrent, Bool.not_true, Bool.false_eq_true, if_false,
      hbuckets, hadvance, Tracker.addMonotonic, hminSeq, if_neg hmin, hreplaces, hstale, true_and]
    exact hkey

theorem exec_quorum (hjudges : op.judges t key = none)
    (hstale : op.storesStale t key = false) (h : (op.exec t).1.HasQuorum key)
    : t.HasQuorum key := by
  cases op using Op.kinds t with
  | inert op hinert =>
    obtain ⟨hconfig, _, hrecorded, _⟩ := exec_of_inert (t := t) hinert
    exact (Tracker.hasQuorum_of_recorded hrecorded hconfig).mp h
  | reconfigured op t' unavailable hreconfigured =>
    rw [(exec_of_reconfigured hreconfigured).1,
      (Tracker.recheckFinality_frame _ _).1.hasQuorum_iff] at h
    rw [judges_of_reconfigured hreconfigured, if_pos (Tracker.mem_finalityKeys h)] at hjudges
    contradiction
  | removeCallback =>
    apply Tracker.hasQuorum_mono _ _ h
    . rfl
    intro nodeID hcounts
    exact hcounts
  | addStatus v now touch unavailable drainFinality =>
    apply addStatus_quorum drainFinality _ hstale h
    simp only [judges] at hjudges
    intro hcond
    rw [if_pos hcond] at hjudges
    contradiction
  | recheckFullyValidated k now unavailable =>
    obtain ⟨hrecorded, _, hconfig⟩ := recheckFullyValidated_keeps t k now unavailable
    exact (Tracker.hasQuorum_of_recorded hrecorded hconfig).mp h
  | expireOld minSeq now sample =>
    have hconfig := (t.expireOld_expired minSeq now sample).config
    apply Tracker.hasQuorum_mono _ _ h
    . simp only [exec, hconfig]
    intro nodeID hcounts
    apply counts_of_recorded hconfig _ hcounts
    intro v hv
    exact Tracker.expireOld_recorded hv
  | flush => contradiction

theorem not_hasQuorum_of_verdict (h : t.verdict key unavailable = .lost) : ¬ t.HasQuorum key := by
  unfold Tracker.verdict at h
  split at h
  . split at h <;> contradiction
  . assumption

theorem not_hasQuorum_of_lookup (h : t.validations.lookup key.ledgerID = none)
    : ¬ t.HasQuorum key := by
  rw [← Tracker.quorumReached_iff]
  simp [Tracker.quorumReached, h]

theorem exec_lost (hjudges : op.judges t key = some .lost) : ¬ (op.exec t).1.HasQuorum key := by
  cases op using Op.kinds t with
  | inert op hinert =>
    rw [judges_of_inert hinert] at hjudges
    contradiction
  | reconfigured op t' unavailable hreconfigured =>
    rw [judges_of_reconfigured hreconfigured] at hjudges
    rw [(exec_of_reconfigured hreconfigured).1,
      (Tracker.recheckFinality_frame _ _).1.hasQuorum_iff]
    split at hjudges
    . exact not_hasQuorum_of_verdict (Option.some.inj hjudges)
    . contradiction
  | removeCallback => contradiction
  | addStatus v now touch unavailable drainFinality =>
    simp only [judges] at hjudges
    split at hjudges
    . exact not_hasQuorum_of_verdict (Option.some.inj hjudges)
    . contradiction
  | recheckFullyValidated k now unavailable =>
    obtain ⟨hrecorded, _, hconfig⟩ := recheckFullyValidated_keeps t k now unavailable
    simp only [judges] at hjudges
    split at hjudges
    . simp only [exec]
      rw [Tracker.hasQuorum_of_recorded hrecorded hconfig]
      exact not_hasQuorum_of_verdict (Option.some.inj hjudges)
    . contradiction
  | expireOld minSeq now sample =>
    simp only [judges] at hjudges
    split at hjudges
    . next hdropped => exact not_hasQuorum_of_lookup hdropped.2
    . contradiction
  | flush =>
    apply not_hasQuorum_of_lookup
    rfl

theorem exec_drains (henabled : op.enabled t = true)
    : (op.exec t).2 = true ∨ 0 < (op.exec t).1.finalityDeferrals ∨
        Tracker.Shrinks t (op.exec t).1 := by
  cases op with
  | addStatus v now touch unavailable drainFinality =>
    by_cases hcurrent : isCurrent now v.signTime v.seenTime = true
    . cases drainFinality with
      | true =>
        left
        simp [exec, hcurrent]
      | false =>
        right
        left
        simp only [exec]
        rw [(Tracker.addStatus_keeps ..).2.2]
        simpa [enabled] using henabled
    right
    right
    have hsame : t.addStatus v now touch unavailable = (t, .stale) := by
      simp [Tracker.addStatus, hcurrent]
    simp only [exec, hsame]
    exact Tracker.Shrinks.of_eq rfl rfl
  | updateTrustedQuorumAndNegativeUNL nodes quorum negativeUNL unavailable drainFinality =>
    cases drainFinality with
    | true =>
      left
      rfl
    | false =>
      right
      left
      simp only [exec, Tracker.updateTrustedQuorumAndNegativeUNL]
      rw [(Tracker.recheckFinality_frame _ _).1.dispatcher]
      simpa [enabled] using henabled
  | recheckFullyValidated key now unavailable =>
    right
    right
    obtain ⟨_, heq⟩ := touch_eq t key.ledgerID now
    simp only [exec, Tracker.recheckFullyValidated]
    split
    . apply Tracker.Shrinks.cancelFinality
    rw [heq]
    apply Tracker.Shrinks.trans _ (Tracker.Shrinks.settleRecheck _ _ _ _)
    exact Tracker.Shrinks.of_eq rfl rfl
  | query ledgerID now =>
    right
    right
    obtain ⟨_, heq⟩ := touch_eq t ledgerID now
    simp only [exec, heq]
    exact Tracker.Shrinks.of_eq rfl rfl
  | setMinSeq seq =>
    right
    right
    obtain ⟨_, heq⟩ := setMinSeq_eq t seq
    simp only [exec, heq]
    exact Tracker.Shrinks.of_eq rfl rfl
  | setSeqToKeep low high =>
    right
    right
    obtain ⟨_, heq⟩ := setSeqToKeep_eq t low high
    simp only [exec, heq]
    exact Tracker.Shrinks.of_eq rfl rfl
  | flushStale =>
    right
    right
    exact Tracker.Shrinks.of_eq rfl rfl
  | expireOld minSeq now sample =>
    right
    right
    exact Tracker.Shrinks.expireOld t minSeq now sample
  | flush =>
    right
    right
    exact ⟨List.nil_subset _, rfl⟩
  | beginFinalityDeferral =>
    right
    left
    simp [exec, Tracker.beginFinalityDeferral]
  | endFinalityDeferral =>
    simp only [exec, Tracker.endFinalityDeferral]
    by_cases hzero : t.finalityDeferrals = 0
    . right
      right
      rw [if_pos hzero]
      exact Tracker.Shrinks.of_eq rfl rfl
    rw [if_neg hzero]
    simp only [beq_iff_eq]
    omega
  | _ =>
    left
    rfl

end Op

def Action.keepsCallback : Action → Bool
  | .call op => op.keepsCallback
  | _ => true

def Action.clockSet : Action → Bool
  | .call op => op.clockSet
  | _ => true

namespace System

def Progressing (s : System) : Prop :=
  s.tracker.pendingFinality ≠ [] →
    0 < s.draining ∨ s.tracker.dispatchingFinality = true ∨ 0 < s.tracker.finalityDeferrals

theorem step_progressing {s : System} (a : Action) (h : s.Progressing)
    : (s.step a).Progressing := by
  intro hpending
  cases a with
  | call op =>
    by_cases henabled : op.enabled s.tracker = true
    . simp only [step, henabled, if_true] at hpending ⊢
      rcases Op.exec_drains henabled with hdrains | hdeferrals | hshrinks
      . left
        rw [hdrains, Bool.toNat_true]
        omega
      . right
        right
        exact hdeferrals
      have hbefore : s.tracker.pendingFinality ≠ [] := by
        intro hnil
        apply hpending
        apply List.subset_nil.mp
        rw [← hnil]
        exact hshrinks.pending
      rw [hshrinks.dispatcher]
      exact (h hbefore).imp_left (fun hlt => by omega)
    simp only [step, henabled] at hpending ⊢
    exact h hpending
  | drain =>
    simp only [step] at hpending ⊢
    split
    . next hzero =>
      rw [if_pos hzero] at hpending
      exact h hpending
    right
    simp only [Tracker.claimDispatch]
    split
    . next hbusy => simpa using hbusy
    left
    rfl
  | dispatch unavailable =>
    by_cases hdispatches : s.dispatches = true
    . simp only [step, hdispatches, if_true] at hpending ⊢
      have hdispatching : s.tracker.dispatchingFinality = true := by
        simp only [dispatches, Bool.and_eq_true] at hdispatches
        exact hdispatches.1
      generalize hr : s.tracker.dispatchNext unavailable = r at hpending ⊢
      right
      cases hr ▸ s.tracker.dispatchNext_case unavailable with
      | stop hstop =>
        cases hstop with
        | inl hdeferrals =>
          right
          exact hdeferrals
        | inr hnil => exact absurd hnil hpending
      | outdated =>
        left
        exact hdispatching
      | cancel =>
        left
        exact hdispatching
      | invoke =>
        left
        exact hdispatching
    simp only [step, hdispatches] at hpending ⊢
    exact h hpending
  | callbackReturns => exact h hpending

end System
end Validations
