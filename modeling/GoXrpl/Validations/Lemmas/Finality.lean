import GoXrpl.Validations.Votes

namespace Validations
namespace Tracker

structure Frame (t t' : Tracker) : Prop where
  evidence : t'.toEvidence = t.toEvidence
  config : t'.toConfig = t.toConfig
  retention : t'.toRetention = t.toRetention
  dispatcher : t'.toDispatcher = t.toDispatcher

namespace Frame

theorem refl (t : Tracker) : Frame t t := ⟨rfl, rfl, rfl, rfl⟩

theorem trans (h : Frame t t') (h' : Frame t' t'') : Frame t t'' where
  evidence := h'.evidence.trans h.evidence
  config := h'.config.trans h.config
  retention := h'.retention.trans h.retention
  dispatcher := h'.dispatcher.trans h.dispatcher

theorem hasQuorum_iff (h : Frame t t') (key : FinalityKey)
    : t'.HasQuorum key ↔ t.HasQuorum key := by
  exact hasQuorum_congr h.evidence h.config

end Frame

theorem cancelFinality_frame (t : Tracker) (key : FinalityKey)
    : Frame t (t.cancelFinality key) := ⟨rfl, rfl, rfl, rfl⟩

def Supersedes (new old : Option FinalityKey) : Prop :=
  ∀ key ∈ old, ∃ key' ∈ new, key = key' ∨ key.ledgerSeq < key'.ledgerSeq

theorem Supersedes.refl (proof : Option FinalityKey) : Supersedes proof proof := by
  intro key hkey
  exact ⟨key, hkey, .inl rfl⟩

theorem Supersedes.of_eq {new old : Option FinalityKey} (h : new = old) : Supersedes new old := by
  rw [h]
  apply Supersedes.refl

theorem Supersedes.trans {newest new old : Option FinalityKey} (h' : Supersedes newest new)
    (h : Supersedes new old)
    : Supersedes newest old := by
  intro key hkey
  obtain ⟨key', hkey', hle⟩ := h key hkey
  obtain ⟨key'', hkey'', hle'⟩ := h' key' hkey'
  refine ⟨key'', hkey'', ?_⟩
  rcases hle with rfl | hlt
  . exact hle'
  right
  rcases hle' with rfl | hlt'
  . exact hlt
  . exact hlt.trans hlt'

-- What is kept while the notifications of the pair are cancelled or go on waiting
structure Keeps (key : FinalityKey) (P : Tracker → Prop) : Prop where
  cancel : ∀ t, P t → P (t.cancelFinality key)
  retain : ∀ t, P t → (∀ proof ∈ t.retainedQuorum, proof.ledgerSeq < key.ledgerSeq) →
    P { t with retainedQuorum := some key }

structure KeepsQueue (key : FinalityKey) (P : Tracker → Prop) : Prop extends Keeps key P where
  enqueue : ∀ t, P t → P ({ t with fired := key :: t.fired }.enqueueFinality key)

section

variable (hP : Keeps key P) (h : P t)
include hP h

theorem Keeps.retainQuorum : P (t.retainQuorum key) := by
  unfold Tracker.retainQuorum
  split
  . next proof hproof =>
    split
    . exact h
    . next hlt =>
      apply hP.retain t h
      rw [hproof]
      rintro _ ⟨⟩
      exact not_le.mp hlt
  . next hnone =>
    apply hP.retain t h
    rw [hnone]
    intro proof hproof
    cases hproof

theorem Keeps.suspendFinality : P (t.suspendFinality key) := by
  unfold Tracker.suspendFinality
  split
  . exact hP.cancel t h
  . exact h

theorem Keeps.settleRecheck (hfired : ∀ t', P t' → P { t' with fired := key :: t'.fired })
    (hcleared : t.onFullyValidated = false →
      ∀ t', P t' → P { t' with fired := t'.fired.filter (· ≠ key) }) (accepted unavailable : Bool)
    : P (t.settleRecheck key accepted unavailable).1 := by
  have hcallback : (t.retainQuorum key).onFullyValidated = t.onFullyValidated := by
    unfold Tracker.retainQuorum
    split
    . split <;> rfl
    . rfl
  have hretain := hP.retainQuorum h
  unfold Tracker.settleRecheck
  split
  . exact hP.cancel t h
  split
  . exact hP.suspendFinality h
  simp only [hcallback]
  split
  . dsimp only
    split
    . exact hretain
    . exact hfired _ hretain
  . next hnone => exact hcleared (by simpa using hnone) _ hretain

omit hP in
theorem KeepsQueue.checkFullValidation (hP : KeepsQueue key P) (respectUnavailable unavailable : Bool)
    : P (t.checkFullValidation key respectUnavailable unavailable).1 := by
  have hretain : P (if unavailable then t else t.retainQuorum key) := by
    split
    . exact h
    . exact hP.retainQuorum h
  simp only [Tracker.checkFullValidation]
  generalize (if unavailable then t else t.retainQuorum key) = t' at hretain
  split
  . exact hP.cancel t h
  split
  . exact hP.suspendFinality hretain
  split
  . exact hretain
  split
  . exact hretain
  . exact hP.enqueue t' hretain

omit hP in
theorem KeepsQueue.recheckFinality (hP : ∀ key, KeepsQueue key P) (unavailable : FinalityKey → Bool)
    : P (t.recheckFinality unavailable) := by
  apply List.foldlRecOn (motive := P)
  . exact h
  intro t' ht' key _
  exact (hP key).checkFullValidation ht' true (unavailable key)

end

theorem keeps_frame (t : Tracker) (key : FinalityKey)
    : KeepsQueue key fun t' => Frame t t' ∧ Supersedes t'.retainedQuorum t.retainedQuorum where
  cancel t' h := ⟨h.1.trans (cancelFinality_frame t' key), h.2⟩
  retain t' h hlt := by
    refine ⟨⟨h.1.evidence, h.1.config, h.1.retention, h.1.dispatcher⟩, Supersedes.trans ?_ h.2⟩
    intro proof hproof
    exact ⟨key, rfl, .inr (hlt proof hproof)⟩
  enqueue t' h := by
    unfold enqueueFinality
    split
    . exact ⟨⟨h.1.evidence, h.1.config, h.1.retention, h.1.dispatcher⟩, h.2⟩
    . exact ⟨⟨h.1.evidence, h.1.config, h.1.retention, h.1.dispatcher⟩, h.2⟩

theorem retainQuorum_frame (t : Tracker) (key : FinalityKey) : Frame t (t.retainQuorum key) :=
  ((keeps_frame t key).toKeeps.retainQuorum ⟨.refl t, .refl _⟩).1

section

variable (t : Tracker) (key : FinalityKey)

theorem checkFullValidation_frame (respectUnavailable unavailable : Bool)
    : Frame t (t.checkFullValidation key respectUnavailable unavailable).1
      ∧ Supersedes (t.checkFullValidation key respectUnavailable unavailable).1.retainedQuorum
        t.retainedQuorum :=
  (keeps_frame t key).checkFullValidation ⟨.refl t, .refl _⟩ respectUnavailable unavailable

theorem recheckFinality_frame (unavailable : FinalityKey → Bool)
    : Frame t (t.recheckFinality unavailable)
      ∧ Supersedes (t.recheckFinality unavailable).retainedQuorum t.retainedQuorum :=
  KeepsQueue.recheckFinality ⟨.refl t, .refl _⟩ (keeps_frame t) unavailable

theorem settleRecheck_frame (accepted unavailable : Bool)
    : Frame t (t.settleRecheck key accepted unavailable).1
      ∧ Supersedes (t.settleRecheck key accepted unavailable).1.retainedQuorum t.retainedQuorum := by
  apply (keeps_frame t key).toKeeps.settleRecheck ⟨.refl t, .refl _⟩
  . intro t' h
    exact ⟨⟨h.1.evidence, h.1.config, h.1.retention, h.1.dispatcher⟩, h.2⟩
  intro _ t' h
  exact ⟨⟨h.1.evidence, h.1.config, h.1.retention, h.1.dispatcher⟩, h.2⟩

end

end Tracker
end Validations
