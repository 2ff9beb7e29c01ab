import GoXrpl.Validations.Lemmas.Finality

open Validations.Tracker AList

namespace Validations
namespace SeqEnforcer

theorem advance_of_true {s : SeqEnforcer} {seq : Nat} (h : (s.advance now seq).2 = true)
    : (s.advance now seq).1 = { seq := seq, when := now } ∧
        (now - s.when ≤ validationSetExpires → s.seq < seq) := by
  simp only [advance] at h ⊢
  by_cases hle : seq ≤ (if now - s.when > validationSetExpires then { s with seq := 0 } else s).seq
  . rw [if_pos hle] at h
    contradiction
  rw [if_neg hle]
  constructor
  . rfl
  intro hwhen
  rw [if_neg (not_lt.mpr hwhen)] at hle
  omega

-- Within the window a rejected sequence leaves the floor where it was.
theorem advance_of_false {s : SeqEnforcer} {seq : Nat}
    (h : (s.advance now seq).2 = false) (hwhen : now - s.when ≤ validationSetExpires)
    : (s.advance now seq).1 = s := by
  simp only [advance, gt_iff_lt, if_neg (not_lt.mpr hwhen)] at h ⊢
  by_cases hle : seq ≤ s.seq
  . rw [if_pos hle]
  rw [if_neg hle] at h
  contradiction

end SeqEnforcer

namespace Tracker

def floor (t : Tracker) (nodeID : NodeID) : Option SeqEnforcer := t.seqEnforcers.lookup nodeID

variable {t t' : Tracker}

theorem recorded_congr (h : t'.validations = t.validations) : t'.recorded = t.recorded := by
  unfold recorded
  rw [h]

theorem floor_congr (h : t'.seqEnforcers = t.seqEnforcers) : t'.floor = t.floor := by
  unfold floor
  rw [h]

theorem Frame.recorded_eq (h : Frame t t') : t'.recorded = t.recorded := by
  apply recorded_congr
  rw [h.evidence]

theorem Frame.floor_eq (h : Frame t t') : t'.floor = t.floor := by
  apply floor_congr
  rw [h.evidence]

theorem trackBySequence_fst (t : Tracker) (v : Validation) (now : Time)
    : ∃ buckets, (t.trackBySequence v now).1 = { t with bySequence := buckets } := by
  unfold trackBySequence
  dsimp only
  split
  . split
    . exact ⟨_, rfl⟩
    . exact ⟨_, rfl⟩
  . exact ⟨_, rfl⟩

theorem recorded_record (t : Tracker) (v : Validation) (touch : Time) (ledgerID : LedgerID)
    (nodeID : NodeID)
    : (t.record v touch).recorded ledgerID nodeID =
        if ledgerID = v.ledgerID ∧ nodeID = v.nodeID then some v
        else t.recorded ledgerID nodeID := by
  unfold record recorded
  by_cases hl : ledgerID = v.ledgerID
  . subst hl
    rw [lookup_insert, Option.bind_some]
    by_cases hn : nodeID = v.nodeID
    . subst hn
      simp
    rw [lookup_insert_ne hn, if_neg (by simp [hn])]
    cases t.validations.lookup v.ledgerID with
    | none => simp
    | some lv => simp
  . rw [lookup_insert_ne hl, if_neg (by simp [hl])]

@[simp]
theorem recorded_touch (t : Tracker) (ledgerID : LedgerID) (now : Time)
    : (t.touch ledgerID now).recorded = t.recorded := by
  unfold touch
  split
  . rfl
  . next lv hlv =>
    funext l n
    unfold recorded
    by_cases hl : l = ledgerID
    . subst hl
      simp [hlv, LedgerValidations.touch]
    . rw [lookup_insert_ne hl]

theorem touch_floor (t : Tracker) (ledgerID : LedgerID) (now : Time)
    : (t.touch ledgerID now).floor = t.floor := by
  unfold touch
  split <;> rfl

theorem lookup_foldl_erase [DecidableEq α] (keys : List α) (m : AList (fun _ : α => β)) (k : α)
    : (keys.foldl (fun m k => m.erase k) m).lookup k = if k ∈ keys then none else m.lookup k := by
  induction keys generalizing m with
  | nil => simp
  | cons key keys ih =>
    rw [List.foldl_cons, ih]
    by_cases hk : k = key
    . subst hk
      simp
    rw [lookup_erase_ne hk]
    simp [hk]

structure Admitted (t : Tracker) (v : Validation) (touch : Time) (t' : Tracker) : Prop where
  floor : t'.floor = t.floor
  config : t'.toConfig = t.toConfig
  recorded : t'.recorded = t.recorded ∨ t'.recorded = (t.record v touch).recorded
  supersedes : Supersedes t'.retainedQuorum t.retainedQuorum

theorem addMonotonic_admitted (t : Tracker) (v : Validation) (touch : Time) (unavailable : Bool)
    : Admitted t v touch (t.addMonotonic v touch unavailable).1 := by
  unfold addMonotonic
  split
  . exact ⟨rfl, rfl, .inl rfl, .refl _⟩
  dsimp only
  split
  . exact ⟨rfl, rfl, .inr rfl, .refl _⟩
  refine ⟨?_, ?_, .inr ?_, (checkFullValidation_frame ..).2⟩
  . rw [Frame.floor_eq (checkFullValidation_frame ..).1]
    rfl
  . rw [(checkFullValidation_frame ..).1.config]
    rfl
  rw [Frame.recorded_eq (checkFullValidation_frame ..).1]
  rfl

theorem advanceFloor_floor (t : Tracker) (v : Validation) (now : Time) (nodeID : NodeID)
    : (t.advanceFloor v now).1.floor nodeID =
        if nodeID = v.nodeID then
          some (((t.floor v.nodeID).getD .empty).advance now v.ledgerSeq).1
        else
          t.floor nodeID := by
  unfold advanceFloor floor
  by_cases hn : nodeID = v.nodeID
  . subst hn
    simp
  . simp [hn]

theorem advanceFloor_snd (t : Tracker) (v : Validation) (now : Time)
    : (t.advanceFloor v now).2 =
        (((t.floor v.nodeID).getD .empty).advance now v.ledgerSeq).2 := rfl

theorem addStatus_floor (touch : Time)
    (unavailable : Bool) (hcurrent : isCurrent now v.signTime v.seenTime = true)
    : (t.addStatus v now touch unavailable).1.floor = (t.advanceFloor v now).1.floor := by
  obtain ⟨buckets, hbuckets⟩ := trackBySequence_fst t v now
  unfold addStatus
  simp only [hcurrent, Bool.not_true, Bool.false_eq_true, if_false, hbuckets]
  split
  . rfl
  rw [(addMonotonic_admitted ..).floor]
  rfl

-- An admitted validation is recorded, and its pair checked if it is the current one of its node.
theorem addStatus_cases (t : Tracker) (v : Validation) (now touch : Time) (unavailable : Bool)
    : ∃ t' : Tracker,
        ((t.addStatus v now touch unavailable).1 = t' ∧
            (t.addStatus v now touch unavailable).2 ≠ .current ∨
          t.addStatus v now touch unavailable =
            ((t'.checkFullValidation v.key true unavailable).1, .current)) ∧
        t'.toConfig = t.toConfig ∧ t'.toFinality = t.toFinality ∧
        t'.toDispatcher = t.toDispatcher := by
  obtain ⟨buckets, hbuckets⟩ := trackBySequence_fst t v now
  have hstale : ValStatus.stale ≠ .current := by decide
  unfold addStatus
  simp only [hbuckets]
  split
  . exact ⟨_, .inl ⟨rfl, hstale⟩, rfl, rfl, rfl⟩
  split
  . refine ⟨_, .inl ⟨rfl, ?_⟩, rfl, rfl, rfl⟩
    simp only [classify]
    split
    . decide
    split
    . decide
    . split <;> decide
  unfold addMonotonic
  split
  . exact ⟨_, .inl ⟨rfl, hstale⟩, rfl, rfl, rfl⟩
  dsimp only
  split
  . exact ⟨_, .inl ⟨rfl, hstale⟩, rfl, rfl, rfl⟩
  . exact ⟨_, .inr rfl, rfl, rfl, rfl⟩

theorem addStatus_keeps (t : Tracker) (v : Validation) (now touch : Time) (unavailable : Bool)
    : (t.addStatus v now touch unavailable).1.toConfig = t.toConfig ∧
        Supersedes (t.addStatus v now touch unavailable).1.retainedQuorum t.retainedQuorum ∧
        (t.addStatus v now touch unavailable).1.toDispatcher = t.toDispatcher := by
  obtain ⟨t', ⟨heq, -⟩ | heq, hconfig, hfinality, hdispatcher⟩ :=
    t.addStatus_cases v now touch unavailable
  . rw [heq, hfinality]
    exact ⟨hconfig, .refl _, hdispatcher⟩
  obtain ⟨hframe, hsupersedes⟩ := t'.checkFullValidation_frame v.key true unavailable
  rw [hfinality] at hsupersedes
  rw [heq]
  exact ⟨hframe.config.trans hconfig, hsupersedes, hframe.dispatcher.trans hdispatcher⟩

theorem addStatus_recorded {touch : Time} {ledgerID : LedgerID}
    (h : (t.addStatus v now touch unavailable).1.recorded ledgerID nodeID = some w)
    : t.recorded ledgerID nodeID = some w ∨
        (isCurrent now v.signTime v.seenTime = true ∧ (t.advanceFloor v now).2 = true ∧
          w = v ∧ ledgerID = v.ledgerID ∧ nodeID = v.nodeID) := by
  obtain ⟨buckets, hbuckets⟩ := trackBySequence_fst t v now
  unfold addStatus at h
  split at h
  . left
    exact h
  . next hcurrent =>
    dsimp only at h
    rw [hbuckets] at h
    split at h
    . left
      exact h
    . next hfloor =>
      have hadmitted := addMonotonic_admitted ({ t with bySequence := buckets }.advanceFloor v now).1 v
        touch unavailable
      cases hadmitted.recorded with
      | inl hsame =>
        left
        rw [hsame] at h
        exact h
      | inr hrecord =>
        rw [hrecord, recorded_record] at h
        split at h
        . next hkey =>
          right
          simp only [Bool.not_eq_true', Bool.not_eq_false] at hcurrent hfloor
          exact ⟨hcurrent, hfloor, by simpa using h.symm, hkey⟩
        left
        exact h

theorem flushStale_floor
    (he : t.floor nodeID = some e) (hwhen : now - e.when ≤ validationSetExpires)
    : (t.flushStale now).floor nodeID = some e := by
  unfold flushStale floor
  rw [lookup_foldl_erase, if_neg]
  . exact he
  intro hmem
  have hidle := (List.mem_filter.mp hmem).2
  unfold floor at he
  simp only [he, decide_eq_true_eq] at hidle
  exact absurd hidle (not_lt.mpr hwhen)

theorem foldl_cancelFinality_frame (t : Tracker) (keys : List FinalityKey)
    : Frame t (keys.foldl cancelFinality t) := by
  induction keys generalizing t with
  | nil => apply Frame.refl
  | cons key keys ih =>
    rw [List.foldl_cons]
    exact (cancelFinality_frame t key).trans (ih _)

theorem recorded_expireLedger (t : Tracker) (ledgerID l : LedgerID) (lv : LedgerValidations)
    (nodeID : NodeID)
    : (t.expireLedger ledgerID lv).recorded l nodeID =
        if l = ledgerID then none else t.recorded l nodeID := by
  unfold expireLedger
  rw [Frame.recorded_eq (foldl_cancelFinality_frame ..)]
  unfold recorded
  by_cases hl : l = ledgerID
  . subst hl
    simp
  . simp [hl]

structure Expired (t t' : Tracker) : Prop where
  floor : t'.floor = t.floor
  config : t'.toConfig = t.toConfig
  retainedQuorum : t'.retainedQuorum = t.retainedQuorum

theorem foldl_cancelFinality_retainedQuorum (t : Tracker) (keys : List FinalityKey)
    : (keys.foldl cancelFinality t).retainedQuorum = t.retainedQuorum := by
  induction keys generalizing t with
  | nil => rfl
  | cons key keys ih =>
    rw [List.foldl_cons, ih]
    rfl

theorem expireLedger_expired (t : Tracker) (ledgerID : LedgerID) (lv : LedgerValidations)
    : Expired t (t.expireLedger ledgerID lv) := by
  unfold expireLedger
  refine ⟨?_, ?_, ?_⟩
  . rw [Frame.floor_eq (foldl_cancelFinality_frame ..)]
    rfl
  . rw [(foldl_cancelFinality_frame ..).config]
  . rw [foldl_cancelFinality_retainedQuorum]

theorem expireOld_induction {P : Tracker → Prop} (minSeq : Nat) (now : Time)
    (sample : LedgerID → NodeID) (hinit : P t)
    (hstep : ∀ t' ledgerID lv, t.validations.lookup ledgerID = some lv → P t' →
      P (t'.expireLedger ledgerID lv))
    : P (t.expireOld minSeq now sample) := by
  apply List.foldlRecOn (motive := P)
  . exact hinit
  intro t' ht' e he
  split
  . exact hstep t' e.1 e.2 (mem_lookup_iff.mpr he) ht'
  . exact ht'

theorem expireOld_recorded {minSeq : Nat} {l : LedgerID}
    (h : (t.expireOld minSeq now sample).recorded l nodeID = some v)
    : t.recorded l nodeID = some v := by
  refine expireOld_induction
    (P := fun t' => t'.recorded l nodeID = some v → t.recorded l nodeID = some v)
    minSeq now sample ?_ ?_ h
  . intro h
    exact h
  intro t' ledgerID lv _ ih h
  rw [recorded_expireLedger] at h
  split at h
  . contradiction
  . exact ih h

theorem expireOld_expired (t : Tracker) (minSeq : Nat) (now : Time) (sample : LedgerID → NodeID)
    : Expired t (t.expireOld minSeq now sample) := by
  apply expireOld_induction (P := Expired t)
  . exact ⟨rfl, rfl, rfl⟩
  intro t' ledgerID lv _ ih
  have hexpired := t'.expireLedger_expired ledgerID lv
  exact ⟨hexpired.floor.trans ih.floor, hexpired.config.trans ih.config,
    hexpired.retainedQuorum.trans ih.retainedQuorum⟩

end Tracker

def Op.accepted (t : Tracker) : Op → Option (Validation × Time)
  | .addStatus v now _ _ _ =>
    if isCurrent now v.signTime v.seenTime && (t.advanceFloor v now).2 then some (v, now) else none
  | _ => none

def Op.reads (nodeID : NodeID) : Op → Option Time
  | .addStatus v now _ _ _ =>
    if isCurrent now v.signTime v.seenTime && v.nodeID == nodeID then some now else none
  | .flushStale now => some now
  | _ => none

namespace Op

variable {op : Op}

theorem accepted_eq_some (h : op.accepted t = some (v, now))
    : ∃ touch unavailable drainFinality, op = .addStatus v now touch unavailable drainFinality ∧
        isCurrent now v.signTime v.seenTime = true ∧ (t.advanceFloor v now).2 = true := by
  unfold accepted at h
  split at h
  . next w time touch unavailable drainFinality =>
    split at h
    . next hcond =>
      obtain ⟨hv, hnow⟩ : w = v ∧ time = now := by simpa using h
      subst hv hnow
      exact ⟨touch, unavailable, drainFinality, rfl, by simpa using hcond⟩
    . contradiction
  . contradiction

theorem endFinalityDeferral_eq (t : Tracker)
    : ∃ deferrals, (Op.endFinalityDeferral.exec t).1 =
        { t with finalityDeferrals := deferrals } := by
  simp only [exec, Tracker.endFinalityDeferral]
  by_cases h : t.finalityDeferrals = 0
  . rw [if_pos h]
    exact ⟨_, rfl⟩
  rw [if_neg h]
  exact ⟨_, rfl⟩

theorem setMinSeq_eq (t : Tracker) (seq : Nat)
    : ∃ retention, t.setMinSeq seq = { t with toRetention := retention } := by
  unfold Tracker.setMinSeq
  split <;> exact ⟨_, rfl⟩

theorem setSeqToKeep_eq (t : Tracker) (low high : Nat)
    : ∃ retention, t.setSeqToKeep low high = { t with toRetention := retention } := by
  unfold Tracker.setSeqToKeep
  split <;> exact ⟨_, rfl⟩

theorem touch_eq (t : Tracker) (ledgerID : LedgerID) (now : Time)
    : ∃ validations, t.touch ledgerID now = { t with validations := validations } := by
  unfold touch
  split <;> exact ⟨_, rfl⟩

def inert : Op → Bool
  | query .. | setMinSeq .. | setSeqToKeep .. | flushStale ..
  | beginFinalityDeferral | endFinalityDeferral => true
  | _ => false

theorem exec_of_inert (h : op.inert = true)
    : (op.exec t).1.toConfig = t.toConfig ∧ (op.exec t).1.toFinality = t.toFinality ∧
        (op.exec t).1.recorded = t.recorded ∧
        ((op.exec t).1.floor = t.floor ∨ ∃ now, op = .flushStale now) := by
  cases op with
  | query ledgerID now =>
    obtain ⟨_, heq⟩ := touch_eq t ledgerID now
    have hrecorded := t.recorded_touch ledgerID now
    simp only [exec, heq] at hrecorded ⊢
    exact ⟨trivial, trivial, hrecorded, .inl rfl⟩
  | setMinSeq seq =>
    obtain ⟨_, heq⟩ := setMinSeq_eq t seq
    simp only [exec, heq]
    exact ⟨trivial, trivial, rfl, .inl rfl⟩
  | setSeqToKeep low high =>
    obtain ⟨_, heq⟩ := setSeqToKeep_eq t low high
    simp only [exec, heq]
    exact ⟨trivial, trivial, rfl, .inl rfl⟩
  | flushStale now => exact ⟨rfl, rfl, rfl, .inr ⟨now, rfl⟩⟩
  | beginFinalityDeferral => exact ⟨rfl, rfl, rfl, .inl rfl⟩
  | endFinalityDeferral =>
    obtain ⟨_, heq⟩ := endFinalityDeferral_eq t
    rw [heq]
    exact ⟨rfl, rfl, rfl, .inl rfl⟩
  | _ => contradiction

def reconfigured (t : Tracker) : Op → Option (Tracker × (FinalityKey → Bool))
  | setTrustedAndQuorum nodes quorum unavailable =>
    some ({ t with trusted := nodes, quorum := quorum }, unavailable)
  | updateTrustedQuorumAndNegativeUNL nodes quorum negativeUNL unavailable _ =>
    some ({ t with trusted := nodes, quorum := quorum, negUNL := negativeUNL }, unavailable)
  | setNegativeUNL nodes unavailable => some ({ t with negUNL := nodes }, unavailable)
  | setQuorumUnavailableFunc unavailable => some (t, unavailable)
  | recheckFinality unavailable => some (t, unavailable)
  | setFullyValidatedCallback true unavailable =>
    some ({ t with onFullyValidated := true }, unavailable)
  | _ => none

theorem exec_of_reconfigured (h : op.reconfigured t = some (t', unavailable))
    : (op.exec t).1 = t'.recheckFinality unavailable ∧ t'.toEvidence = t.toEvidence ∧
        t'.toFinality = t.toFinality ∧ t'.toDispatcher = t.toDispatcher := by
  unfold reconfigured at h
  split at h
  all_goals
    cases h
    try exact ⟨rfl, rfl, rfl, rfl⟩

theorem kinds (t : Tracker) {motive : Op → Prop} (inert : ∀ op, op.inert = true → motive op)
    (reconfigured : ∀ op t' unavailable, op.reconfigured t = some (t', unavailable) → motive op)
    (removeCallback : ∀ unavailable, motive (.setFullyValidatedCallback false unavailable))
    (addStatus : ∀ v now touch unavailable drainFinality,
      motive (.addStatus v now touch unavailable drainFinality))
    (recheckFullyValidated : ∀ key now unavailable,
      motive (.recheckFullyValidated key now unavailable))
    (expireOld : ∀ minSeq now sample, motive (.expireOld minSeq now sample))
    (flush : motive .flush) (op : Op)
    : motive op := by
  cases op with
  | addStatus => apply addStatus
  | recheckFullyValidated => apply recheckFullyValidated
  | expireOld => apply expireOld
  | flush => exact flush
  | setFullyValidatedCallback installed unavailable =>
    cases installed with
    | false => apply removeCallback
    | true => exact reconfigured _ _ _ rfl
  | setTrustedAndQuorum => exact reconfigured _ _ _ rfl
  | updateTrustedQuorumAndNegativeUNL => exact reconfigured _ _ _ rfl
  | setNegativeUNL => exact reconfigured _ _ _ rfl
  | setQuorumUnavailableFunc => exact reconfigured _ _ _ rfl
  | recheckFinality => exact reconfigured _ _ _ rfl
  | _ => exact inert _ rfl

def keepsVoting : Op → Bool
  | setTrustedAndQuorum .. | updateTrustedQuorumAndNegativeUNL .. | setNegativeUNL .. => false
  | _ => true

theorem recheckFullyValidated_keeps (t : Tracker) (key : FinalityKey) (now : Time)
    (unavailable : Bool)
    : (t.recheckFullyValidated key now unavailable).1.recorded = t.recorded ∧
        (t.recheckFullyValidated key now unavailable).1.floor = t.floor ∧
        (t.recheckFullyValidated key now unavailable).1.toConfig = t.toConfig := by
  obtain ⟨_, heq⟩ := touch_eq t key.ledgerID now
  unfold Tracker.recheckFullyValidated
  split
  . exact ⟨rfl, rfl, rfl⟩
  refine ⟨?_, ?_, ?_⟩
  . rw [Tracker.Frame.recorded_eq (settleRecheck_frame ..).1, recorded_touch]
  . rw [Tracker.Frame.floor_eq (settleRecheck_frame ..).1, touch_floor]
  . rw [(settleRecheck_frame ..).1.config, heq]

theorem reconfigured_toConfig
    (hop : op.keepsVoting = true) (h : op.reconfigured t = some (t', unavailable))
    : ∃ installed, t'.toConfig = { t.toConfig with onFullyValidated := installed } := by
  unfold reconfigured at h
  split at h
  all_goals
    cases h
    try exact ⟨_, rfl⟩
    try contradiction

theorem exec_toConfig (h : op.keepsVoting = true)
    : ∃ installed, (op.exec t).1.toConfig = { t.toConfig with onFullyValidated := installed } := by
  cases op using Op.kinds t with
  | inert op hop => exact ⟨_, (exec_of_inert hop).1⟩
  | reconfigured op t' unavailable hop =>
    rw [(exec_of_reconfigured hop).1, (recheckFinality_frame _ _).1.config]
    exact reconfigured_toConfig h hop
  | removeCallback => exact ⟨_, rfl⟩
  | addStatus => exact ⟨_, (addStatus_keeps ..).1⟩
  | recheckFullyValidated => exact ⟨_, (recheckFullyValidated_keeps ..).2.2⟩
  | expireOld => exact ⟨_, (expireOld_expired ..).config⟩
  | flush => exact ⟨_, rfl⟩

theorem exec_supersedes (t : Tracker) (op : Op)
    : Tracker.Supersedes (op.exec t).1.retainedQuorum t.retainedQuorum := by
  cases op using Op.kinds t with
  | inert op hop =>
    apply Tracker.Supersedes.of_eq
    rw [(exec_of_inert hop).2.1]
  | reconfigured op t' unavailable hop =>
    obtain ⟨hexec, _, hfinality, _⟩ := exec_of_reconfigured hop
    have hsupersedes := (t'.recheckFinality_frame unavailable).2
    rw [hexec]
    rw [hfinality] at hsupersedes
    exact hsupersedes
  | removeCallback => apply Tracker.Supersedes.refl
  | addStatus => exact (Tracker.addStatus_keeps ..).2.1
  | recheckFullyValidated key now unavailable =>
    obtain ⟨_, heq⟩ := touch_eq t key.ledgerID now
    simp only [exec, Tracker.recheckFullyValidated]
    split
    . apply Tracker.Supersedes.refl
    rw [heq]
    exact (Tracker.settleRecheck_frame _ _ _ _).2
  | expireOld =>
    apply Tracker.Supersedes.of_eq
    exact (Tracker.expireOld_expired ..).retainedQuorum
  | flush => apply Tracker.Supersedes.refl

theorem recorded_of_reconfigured (h : op.reconfigured t = some (t', unavailable))
    : (op.exec t).1.recorded = t.recorded := by
  obtain ⟨hexec, hevidence, _⟩ := exec_of_reconfigured h
  rw [hexec, Tracker.Frame.recorded_eq (recheckFinality_frame ..).1]
  apply recorded_congr
  rw [hevidence]

theorem exec_recorded {l : LedgerID} (h : (op.exec t).1.recorded l nodeID = some v)
    : t.recorded l nodeID = some v ∨
        ∃ now, op.accepted t = some (v, now) ∧ l = v.ledgerID ∧ nodeID = v.nodeID := by
  cases op using Op.kinds t with
  | inert op hop =>
    left
    rw [(exec_of_inert hop).2.2.1] at h
    exact h
  | reconfigured op t' unavailable hop =>
    left
    rw [recorded_of_reconfigured hop] at h
    exact h
  | removeCallback =>
    left
    exact h
  | addStatus w now touch unavailable drainFinality =>
    cases addStatus_recorded h with
    | inl hold =>
      left
      exact hold
    | inr hnew =>
      obtain ⟨hcurrent, hfloor, hv, hkey⟩ := hnew
      subst hv
      right
      exact ⟨now, by simp [accepted, hcurrent, hfloor], hkey⟩
  | recheckFullyValidated key now unavailable =>
    left
    simp only [exec, (recheckFullyValidated_keeps ..).1] at h
    exact h
  | expireOld minSeq now sample =>
    left
    exact expireOld_recorded h
  | flush => simp [exec, Tracker.flush, Tracker.recorded] at h

theorem exec_floor_of_accepted (h : op.accepted t = some (v, now))
    : (op.exec t).1.floor v.nodeID = some { seq := v.ledgerSeq, when := now } := by
  obtain ⟨touch, unavailable, drainFinality, hop, hcurrent, hfloor⟩ := accepted_eq_some h
  subst hop
  simp only [exec, addStatus_floor touch unavailable hcurrent, advanceFloor_floor,
    if_true]
  rw [advanceFloor_snd] at hfloor
  rw [(SeqEnforcer.advance_of_true hfloor).1]

theorem lt_of_accepted {e : SeqEnforcer}
    (h : op.accepted t = some (v, now)) (he : t.floor v.nodeID = some e)
    (hwhen : now - e.when ≤ validationSetExpires)
    : e.seq < v.ledgerSeq := by
  obtain ⟨_, _, _, _, _, hfloor⟩ := accepted_eq_some h
  rw [advanceFloor_snd, he, Option.getD_some] at hfloor
  exact (SeqEnforcer.advance_of_true hfloor).2 hwhen

theorem exec_floor_of_not_accepted {nodeID : NodeID}
    (he : t.floor nodeID = some e) (hflush : op ≠ .flush)
    (haccepted : ∀ v now, op.accepted t = some (v, now) → v.nodeID ≠ nodeID)
    (hwhen : ∀ now, op.reads nodeID = some now → now - e.when ≤ validationSetExpires)
    : (op.exec t).1.floor nodeID = some e := by
  cases op using Op.kinds t with
  | inert op hop =>
    cases (exec_of_inert (t := t) hop).2.2.2 with
    | inl hsame =>
      rw [hsame]
      exact he
    | inr hflushStale =>
      obtain ⟨now, heq⟩ := hflushStale
      subst heq
      exact flushStale_floor he (hwhen now rfl)
  | reconfigured op t' unavailable hop =>
    obtain ⟨hexec, hevidence, _⟩ := exec_of_reconfigured hop
    rw [hexec, Tracker.Frame.floor_eq (recheckFinality_frame ..).1]
    unfold floor
    rw [hevidence]
    exact he
  | removeCallback => exact he
  | addStatus v now touch unavailable drainFinality =>
    by_cases hcurrent : isCurrent now v.signTime v.seenTime = true
    . simp only [exec, addStatus_floor touch unavailable hcurrent,
        advanceFloor_floor]
      split
      . next hn =>
        subst hn
        have hfalse : (t.advanceFloor v now).2 = false := by
          rw [← Bool.not_eq_true]
          intro htrue
          apply haccepted v now
          . simp [accepted, hcurrent, htrue]
          . rfl
        have hnow := hwhen now (by simp [reads, hcurrent])
        rw [he, Option.getD_some, SeqEnforcer.advance_of_false _ hnow]
        rw [advanceFloor_snd, he, Option.getD_some] at hfalse
        exact hfalse
      . exact he
    . simp [exec, Tracker.addStatus, hcurrent, he]
  | recheckFullyValidated key now unavailable =>
    simp only [exec, (recheckFullyValidated_keeps ..).2.1]
    exact he
  | expireOld minSeq now sample =>
    simp only [exec, (expireOld_expired ..).floor]
    exact he
  | flush => contradiction

end Op
end Validations
