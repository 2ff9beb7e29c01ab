import GoXrpl.Validations.Lemmas.Evidence

open List

namespace Validations

namespace Tracker

def Told (t : Tracker) (key : FinalityKey) : Prop :=
  key ∈ t.fired ∧ key ∉ t.pendingGeneration

structure Same (key : FinalityKey) (t t' : Tracker) : Prop where
  fired : key ∈ t'.fired ↔ key ∈ t.fired
  pending : key ∈ t'.pendingGeneration ↔ key ∈ t.pendingGeneration

namespace Same

theorem refl (key : FinalityKey) (t : Tracker) : Same key t t := ⟨.rfl, .rfl⟩

theorem of_eq (h : t'.toFinality = t.toFinality) : Same key t t' := by
  constructor <;> rw [h]

theorem trans (h : Same key t t') (h' : Same key t' t'') : Same key t t'' :=
  ⟨h'.fired.trans h.fired, h'.pending.trans h.pending⟩

theorem told_iff (h : Same key t t') : t'.Told key ↔ t.Told key := by
  unfold Told
  rw [h.fired, h.pending]

end Same

structure Effect (key : FinalityKey) (judged : Option Verdict) (reported : Prop) (t t' : Tracker)
    : Prop where
  unjudged : judged = none → (key ∈ t'.fired ↔ key ∈ t.fired) ∧ (t'.Told key ↔ t.Told key)
  lost : judged = some .lost → key ∉ t'.fired
  closed : judged = some .closed → (t'.Told key ↔ t.Told key)
  satisfied : judged = some .satisfied →
    key ∈ t'.fired ∧ (t.Told key → t'.Told key) ∧ (t'.Told key → t.Told key ∨ reported)

variable {key : FinalityKey} {t t' : Tracker}
variable {keys : List FinalityKey}

theorem Effect.of_same (h : Same key t t') : Effect key none reported t t' where
  unjudged _ := ⟨h.fired, h.told_iff⟩
  lost := by simp
  closed := by simp
  satisfied := by simp

theorem Effect.same_left (h : Same key t t') (h' : Effect key judged reported t' t'')
    : Effect key judged reported t t'' where
  unjudged hj := by
    rw [← h.fired, ← h.told_iff]
    exact h'.unjudged hj
  lost := h'.lost
  closed hj := by
    rw [← h.told_iff]
    exact h'.closed hj
  satisfied hj := by
    rw [← h.told_iff]
    exact h'.satisfied hj

theorem Effect.same_right (h : Effect key judged reported t t') (h' : Same key t' t'')
    : Effect key judged reported t t'' where
  unjudged hj := by
    rw [h'.fired, h'.told_iff]
    exact h.unjudged hj
  lost hj := by
    rw [h'.fired]
    exact h.lost hj
  closed hj := by
    rw [h'.told_iff]
    exact h.closed hj
  satisfied hj := by
    rw [h'.fired, h'.told_iff]
    exact h.satisfied hj

theorem Effect.weaken (h : Effect key judged reported t t') (himp : reported → reported')
    : Effect key judged reported' t t' where
  unjudged := h.unjudged
  lost := h.lost
  closed := h.closed
  satisfied hj := by
    obtain ⟨hfired, hkept, htold⟩ := h.satisfied hj
    exact ⟨hfired, hkept, fun h => (htold h).imp_right himp⟩

theorem mem_fired_cancelFinality : k ∈ (t.cancelFinality key).fired ↔ k ∈ t.fired ∧ k ≠ key := by
  simp [cancelFinality]

theorem mem_pending_cancelFinality
    : k ∈ (t.cancelFinality key).pendingGeneration ↔ k ∈ t.pendingGeneration ∧ k ≠ key := by
  simp [cancelFinality, and_comm]

theorem cancelFinality_same (h : k ≠ key) : Same k t (t.cancelFinality key) where
  fired := by simp [mem_fired_cancelFinality, h]
  pending := by simp [mem_pending_cancelFinality, h]

@[simp]
theorem enqueueFinality_fired (t : Tracker) (key : FinalityKey)
    : (t.enqueueFinality key).fired = t.fired := by
  unfold enqueueFinality
  split <;> rfl

theorem mem_pending_enqueueFinality
    : k ∈ (t.enqueueFinality key).pendingGeneration ↔ k = key ∨ k ∈ t.pendingGeneration := by
  unfold enqueueFinality
  split
  . next hmem =>
    constructor
    . intro h
      right
      exact h
    intro h
    cases h with
    | inl heq =>
      rw [heq]
      exact hmem
    | inr h => exact h
  . simp

theorem told_suspendFinality : (t.suspendFinality key).Told key ↔ t.Told key := by
  unfold suspendFinality
  split
  . next hpending => simp [Told, mem_fired_cancelFinality, hpending]
  . rfl

theorem keeps_same (t : Tracker) (h : k ≠ key) : KeepsQueue key (Same k t) where
  cancel _ ht := ht.trans (cancelFinality_same h)
  retain _ ht _ := ⟨ht.fired, ht.pending⟩
  enqueue t' ht := by
    apply ht.trans
    constructor
    . simp [h]
    . simp [mem_pending_enqueueFinality, h]

theorem retainQuorum_same (t : Tracker) (key : FinalityKey) : Same key t (t.retainQuorum key) := by
  unfold retainQuorum
  split
  . split
    . apply Same.refl
    . exact ⟨.rfl, .rfl⟩
  . exact ⟨.rfl, .rfl⟩

theorem verdict_eq (unavailable : Bool) (h : t.quorumReached key = true)
    : t.verdict key unavailable = if unavailable then .closed else .satisfied := by
  rw [verdict, if_pos (quorumReached_iff.mp h)]

theorem verdict_eq_lost (unavailable : Bool) (h : t.quorumReached key = false)
    : t.verdict key unavailable = .lost := by
  rw [verdict, if_neg (quorumReached_eq_false_iff.mp h)]

theorem Frame.verdict_eq (h : Frame t t') (key : FinalityKey) (unavailable : Bool)
    : t'.verdict key unavailable = t.verdict key unavailable := by
  simp only [verdict, h.hasQuorum_iff]

theorem checkFullValidation_same (unavailable : Bool) (h : k ≠ key)
    : Same k t (t.checkFullValidation key true unavailable).1 :=
  (keeps_same t h).checkFullValidation (.refl k t) true unavailable

theorem Effect.of_verdict (unavailable : Bool)
    (hlost : t.quorumReached key = false → t' = t.cancelFinality key)
    (hclosed : t.quorumReached key = true → unavailable = true → t' = t.suspendFinality key)
    (hsatisfied : t.quorumReached key = true → unavailable = false →
      Effect key (some .satisfied) reported (t.retainQuorum key) t')
    : Effect key (some (t.verdict key unavailable)) reported t t' := by
  cases hquorum : t.quorumReached key with
  | false =>
    rw [verdict_eq_lost unavailable hquorum, hlost hquorum]
    constructor <;> simp [mem_fired_cancelFinality]
  | true =>
    rw [verdict_eq unavailable hquorum]
    cases unavailable with
    | true =>
      rw [hclosed hquorum rfl]
      constructor <;> simp [told_suspendFinality]
    | false => exact .same_left (retainQuorum_same t key) (hsatisfied hquorum rfl)

theorem checkFullValidation_effect (key : FinalityKey) (unavailable : Bool)
    (hcallback : t.onFullyValidated = true)
    : Effect key (some (t.verdict key unavailable)) False t
        (t.checkFullValidation key true unavailable).1 := by
  have hconfig := (retainQuorum_frame t key).config
  apply Effect.of_verdict
  . intro hlost
    simp [checkFullValidation, hlost]
  . rintro hquorum rfl
    simp [checkFullValidation, hquorum]
  rintro hquorum rfl
  simp only [checkFullValidation, hquorum, Bool.not_true, Bool.false_eq_true, if_false,
    Bool.and_false, hconfig, hcallback]
  split
  . next hfired => constructor <;> simp [hfired]
  . next hfired => constructor <;> simp [Told, hfired, mem_pending_enqueueFinality]

theorem foldl_check_same (t : Tracker) (unavailable : FinalityKey → Bool) (h : k ∉ keys)
    : Same k t (keys.foldl
        (fun t key => (t.checkFullValidation key true (unavailable key)).1) t) := by
  induction keys generalizing t with
  | nil => apply Same.refl
  | cons key keys ih =>
    simp only [mem_cons, not_or] at h
    rw [foldl_cons]
    exact (checkFullValidation_same _ h.1).trans (ih _ h.2)

-- Each pair is checked once, and the checks of the other pairs do not bear on it.
theorem foldl_check_effect
    (unavailable : FinalityKey → Bool) (hcallback : t.onFullyValidated = true) (hk : k ∈ keys)
    (hnodup : keys.Nodup)
    : Effect k (some (t.verdict k (unavailable k))) False t (keys.foldl
        (fun t key => (t.checkFullValidation key true (unavailable key)).1) t) := by
  induction keys generalizing t with
  | nil => contradiction
  | cons key keys ih =>
    rw [nodup_cons] at hnodup
    have hframe := (checkFullValidation_frame t key true (unavailable key)).1
    rw [foldl_cons]
    by_cases heq : k = key
    . subst heq
      apply Effect.same_right (checkFullValidation_effect k _ hcallback)
      exact foldl_check_same _ _ hnodup.1
    apply Effect.same_left (checkFullValidation_same _ heq)
    rw [← hframe.verdict_eq k]
    apply ih
    . rw [hframe.config]
      exact hcallback
    . simpa [heq] using hk
    . exact hnodup.2

theorem nodup_finalityKeys (t : Tracker) : t.finalityKeys.Nodup := by
  unfold finalityKeys
  rw [(perm_insertionSort _ _).nodup_iff]
  apply nodup_dedup

theorem mem_finalityKeys (h : t.HasQuorum key) : key ∈ t.finalityKeys := by
  have hpos : 0 < (t.voters key).card := by
    unfold HasQuorum at h
    omega
  obtain ⟨nodeID, hnode⟩ := Finset.card_pos.mp hpos
  obtain ⟨_, _, v, hv, _, hseq⟩ := mem_voters.mp hnode
  obtain ⟨lv, hlv, hlookup⟩ := Option.bind_eq_some_iff.mp hv
  simp only [finalityKeys, mem_insertionSort, mem_dedup, mem_flatMap, mem_map]
  refine ⟨⟨key.ledgerID, lv⟩, AList.mem_lookup_iff.mp hlv, ⟨nodeID, v⟩,
    AList.mem_lookup_iff.mp hlookup, ?_⟩
  rw [hseq]

theorem recheckFinality_effect (key : FinalityKey)
    (unavailable : FinalityKey → Bool) (hcallback : t.onFullyValidated = true)
    : Effect key (if key ∈ t.finalityKeys then some (t.verdict key (unavailable key)) else none)
        False t (t.recheckFinality unavailable) := by
  split
  . next hmem => exact foldl_check_effect unavailable hcallback hmem t.nodup_finalityKeys
  . next hmem =>
    apply Effect.of_same
    exact foldl_check_same t unavailable hmem

theorem settleRecheck_same (accepted unavailable : Bool) (h : k ≠ key)
    : Same k t (t.settleRecheck key accepted unavailable).1 := by
  apply (keeps_same t h).toKeeps.settleRecheck (.refl k t)
  . intro t' ht
    apply ht.trans
    constructor <;> simp [h]
  intro _ t' ht
  apply ht.trans
  constructor <;> simp [h]

theorem settleRecheck_effect (key : FinalityKey) (unavailable : Bool)
    (hcallback : t.onFullyValidated = true)
    : Effect key (some (t.verdict key unavailable))
        ((t.settleRecheck key (t.quorumReached key) unavailable).2 = true) t
        (t.settleRecheck key (t.quorumReached key) unavailable).1 := by
  have hconfig := (retainQuorum_frame t key).config
  apply Effect.of_verdict
  . intro hlost
    simp [settleRecheck, hlost]
  . rintro hquorum rfl
    simp [settleRecheck, hquorum]
  rintro hquorum rfl
  simp only [settleRecheck, hquorum, Bool.not_true, Bool.false_eq_true, if_false, hconfig,
    hcallback, if_true]
  split
  . next hfired => constructor <;> simp [hfired]
  . next hfired => constructor <;> simp [Told, hfired]

def Signed (t : Tracker) : Prop :=
  ∀ l nodeID v, t.recorded l nodeID = some v → v.signTime ≠ 0

-- The recheck skips validations without a sign time, of which there are none.
theorem recheckedValidations_length
    (hsigned : t.Signed) (hlv : t.validations.lookup key.ledgerID = some lv)
    : (t.recheckedValidations lv.vals key.ledgerSeq).length =
        countTrustedAtSeq lv.vals t.trusted t.negUNL key.ledgerSeq := by
  unfold recheckedValidations countTrustedAtSeq
  rw [length_map, countP_eq_length_filter]
  congr 1
  apply filter_congr
  intro e he
  have hsign : (e.2.signTime != 0) = true := by
    rw [bne_iff_ne]
    apply hsigned key.ledgerID e.1
    unfold recorded
    rw [hlv, Option.bind_some]
    exact AList.mem_lookup_iff.mpr he
  rw [hsign]
  cases e.2.full <;> cases e.2.ledgerSeq == key.ledgerSeq <;> simp

theorem recheckFullyValidated_effect (key k : FinalityKey) (now : Time)
    (unavailable : Bool) (hcallback : t.onFullyValidated = true) (hsigned : t.Signed)
    : Effect k (if k = key then some (t.verdict k unavailable) else none)
        (k = key ∧ (t.recheckFullyValidated key now unavailable).2.2.2 = true) t
        (t.recheckFullyValidated key now unavailable).1 := by
  obtain ⟨_, htouch⟩ := Op.touch_eq t key.ledgerID now
  have htouched : Same k t (t.touch key.ledgerID now) := by
    apply Same.of_eq
    rw [htouch]
  have hquorum : (t.touch key.ledgerID now).HasQuorum key ↔ t.HasQuorum key := by
    apply hasQuorum_of_recorded
    . apply recorded_touch
    . rw [htouch]
  cases hlv : t.validations.lookup key.ledgerID with
  | none =>
    simp only [recheckFullyValidated, hlv]
    by_cases heq : k = key
    . subst heq
      have hlost : t.quorumReached k = false := by simp [quorumReached, hlv]
      rw [if_pos rfl, verdict_eq_lost unavailable hlost]
      constructor <;> simp [mem_fired_cancelFinality]
    rw [if_neg heq]
    apply Effect.of_same
    exact cancelFinality_same heq
  | some lv =>
    simp only [recheckFullyValidated, hlv]
    by_cases heq : k = key
    . subst heq
      have haccepted : (decide (0 < (t.recheckedValidations lv.vals k.ledgerSeq).length) &&
          decide (t.quorum ≤ (t.recheckedValidations lv.vals k.ledgerSeq).length)) =
          (t.touch k.ledgerID now).quorumReached k := by
        rw [Bool.eq_iff_iff, quorumReached_iff, hquorum, ← quorumReached_iff,
          recheckedValidations_length hsigned hlv]
        simp only [quorumReached, hlv, Bool.and_eq_true, decide_eq_true_eq, Bool.not_or,
          Bool.not_eq_true', beq_eq_false_iff_ne, decide_eq_false_iff_not]
        omega
      have hverdict : (t.touch k.ledgerID now).verdict k unavailable =
          t.verdict k unavailable := by
        simp only [verdict, hquorum]
      rw [if_pos rfl, haccepted, ← hverdict]
      simp only [true_and]
      apply Effect.same_left htouched
      apply settleRecheck_effect
      rw [htouch]
      exact hcallback
    rw [if_neg heq]
    apply Effect.of_same
    exact htouched.trans (settleRecheck_same _ _ heq)

theorem addStatus_effect (v : Validation) (now touch : Time) (unavailable : Bool)
    (key : FinalityKey) (hcallback : t.onFullyValidated = true)
    : Effect key
        (if (t.addStatus v now touch unavailable).2 = .current ∧ key = v.key then
          some ((t.addStatus v now touch unavailable).1.verdict key unavailable) else none) False t
        (t.addStatus v now touch unavailable).1 := by
  obtain ⟨t', ⟨heq, hstatus⟩ | heq, hconfig, hfinality, -⟩ :=
    t.addStatus_cases v now touch unavailable
  . rw [if_neg fun h => hstatus h.1, heq]
    exact Effect.of_same (Same.of_eq hfinality)
  rw [heq]
  simp only [true_and]
  apply Effect.same_left (Same.of_eq hfinality)
  split
  . next hkey =>
    subst hkey
    rw [(checkFullValidation_frame ..).1.verdict_eq]
    apply checkFullValidation_effect
    rw [hconfig]
    exact hcallback
  . next hkey =>
    apply Effect.of_same
    exact checkFullValidation_same _ hkey

theorem mem_fired_foldl_cancel
    : k ∈ (keys.foldl cancelFinality t).fired ↔ k ∈ t.fired ∧ k ∉ keys := by
  induction keys generalizing t with
  | nil => simp
  | cons key keys ih =>
    rw [foldl_cons, ih, mem_fired_cancelFinality, mem_cons, not_or, and_assoc]

theorem foldl_cancel_same (t : Tracker) (h : k ∉ keys)
    : Same k t (keys.foldl cancelFinality t) := by
  induction keys generalizing t with
  | nil => apply Same.refl
  | cons key keys ih =>
    simp only [mem_cons, not_or] at h
    rw [foldl_cons]
    exact (cancelFinality_same h.1).trans (ih _ h.2)

theorem expireLedger_same (lv : LedgerValidations) (h : key.ledgerID ≠ ledgerID)
    : Same key t (t.expireLedger ledgerID lv) := by
  apply Same.trans _ (foldl_cancel_same _ _)
  . apply Same.of_eq
    rfl
  . simp [h]

theorem not_mem_fired_expireLedger (lv : LedgerValidations) (key : FinalityKey)
    : key ∉ (t.expireLedger key.ledgerID lv).fired := by
  unfold expireLedger
  rw [mem_fired_foldl_cancel]
  simp

theorem lookup_expireLedger (t : Tracker) (ledgerID l : LedgerID) (lv : LedgerValidations)
    : (t.expireLedger ledgerID lv).validations.lookup l =
        if l = ledgerID then none else t.validations.lookup l := by
  unfold expireLedger
  rw [(foldl_cancelFinality_frame ..).evidence]
  by_cases hl : l = ledgerID
  . subst hl
    simp
  . simp [hl]

-- Either the set of the pair's ledger is still there or the pair has no marker.
theorem expireOld_cases (t : Tracker) (minSeq : Nat) (now : Time) (sample : LedgerID → NodeID)
    (key : FinalityKey)
    : ((t.expireOld minSeq now sample).validations.lookup key.ledgerID =
          t.validations.lookup key.ledgerID ∧ Same key t (t.expireOld minSeq now sample)) ∨
        ((t.expireOld minSeq now sample).validations.lookup key.ledgerID = none ∧
          (t.validations.lookup key.ledgerID).isSome ∧
          key ∉ (t.expireOld minSeq now sample).fired) := by
  apply expireOld_induction (P := fun t' =>
    (t'.validations.lookup key.ledgerID = t.validations.lookup key.ledgerID ∧ Same key t t') ∨
      (t'.validations.lookup key.ledgerID = none ∧ (t.validations.lookup key.ledgerID).isSome ∧
        key ∉ t'.fired))
  . left
    exact ⟨rfl, Same.refl key t⟩
  intro t' ledgerID lv hlv ih
  rw [lookup_expireLedger]
  by_cases hl : key.ledgerID = ledgerID
  . subst hl
    right
    refine ⟨if_pos rfl, by rw [hlv]; rfl, not_mem_fired_expireLedger lv key⟩
  have hsame := expireLedger_same (t := t') lv hl
  rw [if_neg hl, hsame.fired]
  cases ih with
  | inl hkept =>
    left
    exact ⟨hkept.1, hkept.2.trans hsame⟩
  | inr hdropped =>
    right
    exact hdropped

theorem expireOld_effect (t : Tracker) (minSeq : Nat) (now : Time) (sample : LedgerID → NodeID)
    (key : FinalityKey)
    : Effect key
        (if (t.validations.lookup key.ledgerID).isSome ∧
            (t.expireOld minSeq now sample).validations.lookup key.ledgerID = none then
          some .lost else none) False t (t.expireOld minSeq now sample) := by
  cases t.expireOld_cases minSeq now sample key with
  | inl hkept =>
    rw [if_neg]
    . exact Effect.of_same hkept.2
    intro h
    rw [← hkept.1, h.2] at h
    simp at h
  | inr hdropped =>
    rw [if_pos ⟨hdropped.2.1, hdropped.1⟩]
    constructor <;> simp [hdropped.2.2]

end Tracker
end Validations
