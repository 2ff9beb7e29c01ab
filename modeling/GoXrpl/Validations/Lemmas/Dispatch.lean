import GoXrpl.Validations.Lemmas.Queue
import GoXrpl.Validations.Lemmas.System

open List AList

namespace Validations
namespace Tracker

structure Queued (t : Tracker) : Prop where
  queued : ∀ key generation, t.pendingGeneration.lookup key = some generation →
    ⟨key, generation⟩ ∈ t.pendingFinality
  fired : ∀ key ∈ t.pendingGeneration, key ∈ t.fired

namespace Queued

variable {t : Tracker}

theorem of_eq {t' : Tracker} (h : t.Queued) (hfired : t'.fired = t.fired)
    (hpending : t'.pendingFinality = t.pendingFinality)
    (hgeneration : t'.pendingGeneration = t.pendingGeneration)
    : t'.Queued := by
  constructor
  . rw [hgeneration, hpending]
    exact h.queued
  rw [hgeneration, hfired]
  exact h.fired

theorem cancelFinality (h : t.Queued) (key : FinalityKey) : (t.cancelFinality key).Queued where
  queued k generation hk := by
    by_cases heq : k = key
    . subst heq
      simp [Tracker.cancelFinality] at hk
    simp only [Tracker.cancelFinality, lookup_erase_ne heq] at hk
    simp only [Tracker.cancelFinality, mem_filter, h.queued k generation hk, true_and]
    simpa using heq
  fired k hk := by
    rw [mem_pending_cancelFinality] at hk
    rw [mem_fired_cancelFinality]
    exact ⟨h.fired k hk.1, hk.2⟩

theorem enqueueFinality_mark (h : t.Queued) (key : FinalityKey)
    : ({ t with fired := key :: t.fired }.enqueueFinality key).Queued := by
  constructor
  . intro k generation hk
    unfold Tracker.enqueueFinality at hk ⊢
    split at hk
    . next hpending =>
      rw [if_pos hpending]
      exact h.queued k generation hk
    . next hpending =>
      rw [if_neg hpending]
      simp only [mem_insertionSort, mem_append, mem_singleton]
      by_cases heq : k = key
      . subst heq
        right
        simp only [lookup_insert, Option.some.injEq] at hk
        rw [hk]
      left
      simp only [lookup_insert_ne heq] at hk
      exact h.queued k generation hk
  intro k hk
  rw [enqueueFinality_fired, mem_cons]
  rw [mem_pending_enqueueFinality] at hk
  exact hk.imp id (h.fired k)

theorem keeps (key : FinalityKey) : KeepsQueue key Queued where
  cancel _ h := h.cancelFinality key
  retain _ h _ := h.of_eq rfl rfl rfl
  enqueue _ h := h.enqueueFinality_mark key

theorem settleRecheck (h : t.Queued) (hcallback : t.onFullyValidated = true)
    (key : FinalityKey) (accepted unavailable : Bool)
    : (t.settleRecheck key accepted unavailable).1.Queued := by
  apply (keeps key).toKeeps.settleRecheck h
  . intro t' ht
    constructor
    . exact ht.queued
    intro k hk
    exact mem_cons_of_mem _ (ht.fired k hk)
  intro hnone
  rw [hcallback] at hnone
  contradiction

theorem addStatus (h : t.Queued) (v : Validation) (now touch : Time) (unavailable : Bool)
    : (t.addStatus v now touch unavailable).1.Queued := by
  obtain ⟨t', hcases, -, hfinality, -⟩ := t.addStatus_cases v now touch unavailable
  have ht' : t'.Queued := by apply h.of_eq <;> rw [hfinality]
  rcases hcases with ⟨heq, -⟩ | heq
  . exact heq ▸ ht'
  rw [heq]
  exact (keeps v.key).checkFullValidation ht' true unavailable

theorem expireOld (h : t.Queued) (minSeq : Nat) (now : Time) (sample : LedgerID → NodeID)
    : (t.expireOld minSeq now sample).Queued := by
  apply expireOld_induction (P := Queued) minSeq now sample h
  intro t' ledgerID lv _ ht'
  unfold expireLedger
  apply foldlRecOn (motive := Queued)
  . exact ht'.of_eq rfl rfl rfl
  intro t'' ht'' key _
  exact ht''.cancelFinality key

theorem dispatchNext (h : t.Queued) (unavailable : Bool)
    : (t.dispatchNext unavailable).1.Queued := by
  -- Taking the head of the queue leaves the notifications of the other pairs in it.
  have hpop : ∀ notification rest, t.pendingFinality = notification :: rest →
      (t.popFinality notification.key rest).Queued := by
    intro notification rest hpending
    constructor
    . intro k generation hk
      have hne : k ≠ notification.key := by
        intro heq
        subst heq
        simp [popFinality] at hk
      simp only [popFinality, lookup_erase_ne hne] at hk
      have hmem := h.queued k generation hk
      rw [hpending, mem_cons] at hmem
      cases hmem with
      | inl heq => exact absurd (congrArg FinalityNotification.key heq) hne
      | inr hrest => exact hrest
    intro k hk
    simp only [popFinality, mem_erase] at hk
    exact h.fired k hk.2
  generalize hr : t.dispatchNext unavailable = r
  cases hr ▸ t.dispatchNext_case unavailable with
  | stop => exact h.of_eq rfl rfl rfl
  | outdated notification rest _ hpending hgeneration =>
    constructor
    . intro k generation hk
      have hmem := h.queued k generation hk
      rw [hpending, mem_cons] at hmem
      cases hmem with
      | inl heq =>
        rw [← heq] at hgeneration
        exact absurd hk hgeneration
      | inr hrest => exact hrest
    . exact h.fired
  | cancel notification rest hheads =>
    exact (hpop notification rest hheads.pending).cancelFinality notification.key
  | invoke notification rest hheads => exact hpop notification rest hheads.pending

end Queued

structure Shrinks (t t' : Tracker) : Prop where
  pending : t'.pendingFinality ⊆ t.pendingFinality
  dispatcher : t'.toDispatcher = t.toDispatcher

namespace Shrinks

theorem trans (h : Shrinks t t') (h' : Shrinks t' t'') : Shrinks t t'' :=
  ⟨List.Subset.trans h'.pending h.pending, h'.dispatcher.trans h.dispatcher⟩

theorem of_eq {t t' : Tracker} (hfinality : t'.pendingFinality = t.pendingFinality)
    (hdispatcher : t'.toDispatcher = t.toDispatcher)
    : Shrinks t t' := by
  constructor
  . rw [hfinality]
    apply List.Subset.refl
  . exact hdispatcher

theorem cancelFinality (t : Tracker) (key : FinalityKey) : Shrinks t (t.cancelFinality key) := by
  constructor
  . exact filter_subset_self _
  . rfl

theorem keeps (t : Tracker) (key : FinalityKey) : Keeps key (Shrinks t) where
  cancel t' h := h.trans (cancelFinality t' key)
  retain _ h _ := ⟨h.pending, h.dispatcher⟩

theorem settleRecheck (t : Tracker) (key : FinalityKey) (accepted unavailable : Bool)
    : Shrinks t (t.settleRecheck key accepted unavailable).1 := by
  apply (keeps t key).settleRecheck (of_eq rfl rfl)
  . exact fun _ h => ⟨h.pending, h.dispatcher⟩
  . exact fun _ _ h => ⟨h.pending, h.dispatcher⟩

theorem expireOld (t : Tracker) (minSeq : Nat) (now : Time) (sample : LedgerID → NodeID)
    : Shrinks t (t.expireOld minSeq now sample) := by
  apply expireOld_induction (P := Shrinks t)
  . exact of_eq rfl rfl
  intro t' ledgerID lv _ ht'
  apply ht'.trans
  unfold expireLedger
  apply foldlRecOn (motive := Shrinks t')
  . exact of_eq rfl rfl
  intro t'' ht'' key _
  exact ht''.trans (cancelFinality t'' key)

end Shrinks

theorem popFinality_same (rest : List FinalityNotification) (h : k ≠ key)
    : Same k t (t.popFinality key rest) where
  fired := .rfl
  pending := by simp [popFinality, h]

theorem Heads.examined {t : Tracker} (h : t.Heads notification rest)
    : t.examined = some notification.key := by
  simp [Tracker.examined, h.deferrals, h.pending, h.generation]

theorem dispatchNext_effect (hqueued : t.Queued) (unavailable : Bool)
    (hcallback : t.onFullyValidated = true) (key : FinalityKey)
    : Effect key (if t.examined = some key then some (t.verdict key unavailable) else none)
        ((t.dispatchNext unavailable).2 = .invoke key) t (t.dispatchNext unavailable).1 := by
  generalize hr : t.dispatchNext unavailable = r
  cases hr ▸ t.dispatchNext_case unavailable with
  | stop h =>
    have hexamined : t.examined = none := by
      unfold examined
      cases h with
      | inl hdeferrals => rw [if_pos hdeferrals]
      | inr hpending => simp [hpending]
    rw [hexamined, if_neg (by simp)]
    apply Effect.of_same
    exact ⟨.rfl, .rfl⟩
  | outdated notification rest hdeferrals hpending hgeneration =>
    have hexamined : t.examined = none := by simp [examined, hdeferrals, hpending, hgeneration]
    rw [hexamined, if_neg (by simp)]
    apply Effect.of_same
    exact ⟨.rfl, .rfl⟩
  | cancel notification rest hheads hineligible =>
    rw [hheads.examined]
    by_cases heq : key = notification.key
    . subst heq
      have hmem := hheads.mem
      rw [if_pos rfl]
      -- The callback is installed, so the pair is not to be reported.
      have hverdict : t.verdict notification.key unavailable ≠ .satisfied := by
        intro hsatisfied
        unfold verdict at hsatisfied
        split at hsatisfied
        . next hquorum =>
          cases unavailable with
          | true => contradiction
          | false => simp [hineligible hquorum rfl] at hcallback
        . contradiction
      constructor <;> simp [Told, mem_fired_cancelFinality, hmem, hverdict]
    rw [if_neg (by simpa using Ne.symm heq)]
    apply Effect.of_same
    exact (popFinality_same rest heq).trans (cancelFinality_same heq)
  | invoke notification rest hheads hquorum hgate =>
    rw [hheads.examined]
    by_cases heq : key = notification.key
    . subst heq
      have hmem := hheads.mem
      have hfired := hqueued.fired notification.key hmem
      have hverdict : t.verdict notification.key unavailable = .satisfied := by
        simp [verdict, hquorum, hgate]
      rw [if_pos rfl, hverdict]
      constructor <;> simp [Told, popFinality, hfired, hmem]
    rw [if_neg (by simpa using Ne.symm heq)]
    apply Effect.of_same
    exact popFinality_same rest heq

end Tracker
end Validations
