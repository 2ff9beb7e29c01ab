import GoXrpl.Validations.Agreement
import GoXrpl.Validations.Lemmas.History

open List Validations.Tracker Validations.System

namespace Validations

open Transition (Occurs)

namespace System

structure Regular (s : System) : Prop where
  callback : s.tracker.onFullyValidated = true
  signed : s.tracker.Signed
  queued : s.tracker.Queued
  progressing : s.Progressing

variable {s : System}

theorem step_regular (hkeeps : a.keepsCallback = true) (hclock : a.clockSet = true) (h : s.Regular)
    : (s.step a).Regular := by
  have hprogressing := step_progressing a h.progressing
  cases s.step_cases a with
  | inl hop =>
    obtain ⟨op, ha, _, htracker⟩ := hop
    subst ha
    constructor
    . rw [htracker]
      exact Op.exec_callback hkeeps h.callback
    . rw [htracker]
      exact Op.exec_signed hclock h.signed
    . rw [htracker]
      exact Op.exec_queued h.callback h.queued
    . exact hprogressing
  | inr hother =>
    obtain ⟨hcall, _, hevidence, hconfig, _⟩ := hother
    constructor
    . rw [hconfig]
      exact h.callback
    . unfold Tracker.Signed recorded
      rw [hevidence]
      exact h.signed
    . cases a with
      | call op =>
        simp only [step, hcall op rfl]
        exact h.queued
      | drain =>
        obtain ⟨b, hb⟩ := s.tracker.claimDispatch_eq
        simp only [step, hb]
        split
        . exact h.queued
        . exact h.queued.of_eq rfl rfl rfl
      | dispatch unavailable =>
        simp only [step]
        split
        . exact h.queued.dispatchNext unavailable
        . exact h.queued
      | callbackReturns => exact h.queued
    . exact hprogressing

theorem invokes_dispatch (h : s.dispatches = true) (key : FinalityKey)
    : s.invokes (.dispatch unavailable) = some key ↔
        (s.tracker.dispatchNext unavailable).2 = .invoke key := by
  simp only [invokes, h, if_true]
  split
  . next k hk => simp [hk]
  . next hk =>
    constructor
    . intro hnone
      contradiction
    intro hinvoke
    exact absurd hinvoke (hk key)

theorem step_effect (hkeeps : a.keepsCallback = true) (h : s.Regular) (key : FinalityKey)
    : Tracker.Effect key (s.judges key a) (s.reports key a = true) s.tracker
        (s.step a).tracker := by
  cases a with
  | call op =>
    by_cases henabled : op.enabled s.tracker = true
    . simp only [step, judges, reports, invokes, henabled, if_true]
      apply Tracker.Effect.weaken (Op.exec_effect hkeeps h.callback h.signed key)
      simp
    simp only [step, judges, henabled]
    apply Tracker.Effect.of_same
    apply Tracker.Same.refl
  | drain =>
    obtain ⟨b, hb⟩ := s.tracker.claimDispatch_eq
    apply Tracker.Effect.of_same
    simp only [step, hb]
    split
    . apply Tracker.Same.refl
    . exact ⟨.rfl, .rfl⟩
  | dispatch unavailable =>
    by_cases hdispatches : s.dispatches = true
    . simp only [step, judges, reports, hdispatches, if_true, true_and, invokes_dispatch hdispatches,
        Bool.or_false, decide_eq_true_eq]
      exact dispatchNext_effect h.queued unavailable h.callback key
    simp only [step, judges, hdispatches]
    apply Tracker.Effect.of_same
    apply Tracker.Same.refl
  | callbackReturns =>
    apply Tracker.Effect.of_same
    apply Tracker.Same.refl

theorem step_quorum (hjudges : s.judges key a = none)
    (hstale : s.storesStale key a = false) (h : (s.step a).tracker.HasQuorum key)
    : s.tracker.HasQuorum key := by
  cases s.step_cases a with
  | inl hop =>
    obtain ⟨op, ha, henabled, htracker⟩ := hop
    subst ha
    simp only [judges, henabled, if_true] at hjudges
    simp only [storesStale, henabled, Bool.true_and] at hstale
    rw [htracker] at h
    exact Op.exec_quorum hjudges hstale h
  | inr hother =>
    obtain ⟨_, _, hevidence, hconfig, _⟩ := hother
    exact (hasQuorum_congr hevidence hconfig).mp h

theorem step_lost (hjudges : s.judges key a = some .lost) : ¬ (s.step a).tracker.HasQuorum key := by
  cases s.step_cases a with
  | inl hop =>
    obtain ⟨op, ha, henabled, htracker⟩ := hop
    subst ha
    simp only [judges, henabled, if_true] at hjudges
    rw [htracker]
    exact Op.exec_lost hjudges
  | inr hother =>
    obtain ⟨hcall, _, hevidence, hconfig, _⟩ := hother
    rw [hasQuorum_congr hevidence hconfig]
    cases a with
    | call op => simp [judges, hcall op rfl] at hjudges
    | dispatch unavailable =>
      simp only [judges] at hjudges
      split at hjudges
      . exact Op.not_hasQuorum_of_verdict (Option.some.inj hjudges)
      . contradiction
    | drain => contradiction
    | callbackReturns => contradiction

-- The notification is gone, the marker stays.
theorem told_of_invokes (h : s.Regular) (hinvokes : s.invokes a = some key)
    : (s.step a).tracker.Told key := by
  obtain ⟨unavailable, ha, hdispatches, hinvoke⟩ := invokes_eq_some hinvokes
  have hpending := (dispatchNext_invoke hinvoke).1
  subst ha
  simp only [step, hdispatches, if_true]
  generalize hr : s.tracker.dispatchNext unavailable = r at hinvoke ⊢
  cases hr ▸ s.tracker.dispatchNext_case unavailable with
  | stop => contradiction
  | outdated => contradiction
  | cancel => contradiction
  | invoke notification rest =>
    have hkey : notification.key = key := by simpa using hinvoke
    subst hkey
    exact ⟨h.queued.fired _ hpending, by simp [popFinality]⟩

theorem not_invokes_of_told (a : Action) (h : s.tracker.Told key) : s.invokes a ≠ some key := by
  intro hinvokes
  obtain ⟨_, _, _, hinvoke⟩ := invokes_eq_some hinvokes
  exact h.2 (dispatchNext_invoke hinvoke).1

-- As long as the pair has its quorum, a check that finds something out does not find it lost.
theorem step_told (hkeeps : a.keepsCallback = true)
    (h : s.Regular) (htold : s.tracker.Told key) (hquorum : (s.step a).tracker.HasQuorum key)
    : (s.step a).tracker.Told key := by
  have heffect := step_effect hkeeps h key
  cases hjudges : s.judges key a with
  | none => exact (heffect.unjudged hjudges).2.mpr htold
  | some verdict =>
    cases verdict with
    | lost => exact absurd hquorum (step_lost hjudges)
    | closed => exact (heffect.closed hjudges).mpr htold
    | satisfied => exact (heffect.satisfied hjudges).2.1 htold

end System

theorem configured_regular (trusted negUNL : List NodeID) (quorum : Int)
    : (configured trusted negUNL quorum true).Regular where
  callback := rfl
  signed := by
    intro l nodeID v hv
    contradiction
  queued := by
    constructor
    . intro key generation hkey
      contradiction
    intro key hkey
    contradiction
  progressing := by
    intro hpending
    contradiction

variable {s : System}

theorem run_regular (h : s.Regular)
    (hkeeps : ∀ a ∈ actions, a.keepsCallback = true) (hclock : ∀ a ∈ actions, a.clockSet = true)
    : (run s actions).Regular := by
  apply Transition.run_invariant step System.Regular
    (fun a => a.keepsCallback = true ∧ a.clockSet = true) h
  . intro s a ha hs
    exact step_regular ha.1 ha.2 hs
  intro a ha
  exact ⟨hkeeps a ha, hclock a ha⟩

theorem told_between (h : s.Regular) (hkeeps : ∀ b ∈ p ++ a :: q, b.keepsCallback = true)
    (hclock : ∀ b ∈ p ++ a :: q, b.clockSet = true) (hinvokes : (run s p).invokes a = some key)
    (hquorum : ∀ r, r <+: q → (run s (p ++ a :: r)).tracker.HasQuorum key)
    : (run s (p ++ a :: q)).tracker.Told key := by
  induction q using reverseRecOn with
  | nil =>
    rw [run, Transition.run_concat]
    apply told_of_invokes _ hinvokes
    apply run_regular h
    . intro b hb
      exact hkeeps b (mem_append_left _ hb)
    intro b hb
    exact hclock b (mem_append_left _ hb)
  | append_singleton q b ih =>
    have hsub : ∀ c ∈ p ++ a :: q, c ∈ p ++ a :: (q ++ [b]) := by
      intro c hc
      simp only [mem_append, mem_cons] at hc ⊢
      tauto
    have hregular : (run s (p ++ a :: q)).Regular :=
      run_regular h (fun c hc => hkeeps c (hsub c hc)) (fun c hc => hclock c (hsub c hc))
    have hlast := hquorum (q ++ [b]) prefix_rfl
    rw [run_cons_concat] at hlast ⊢
    apply step_told _ hregular _ hlast
    . apply hkeeps
      simp
    apply ih
    . intro c hc
      exact hkeeps c (hsub c hc)
    . intro c hc
      exact hclock c (hsub c hc)
    intro r hr
    exact hquorum r (hr.trans (prefix_append _ _))

namespace History

structure Consistent (key : FinalityKey) (sh : System × History) : Prop where
  regular : sh.1.Regular
  marked : sh.2.judged = some .satisfied → key ∈ sh.1.tracker.fired
  told : sh.1.tracker.Told key → sh.2.reported = true
  known : sh.1.tracker.HasQuorum key → sh.2.unchecked = false →
    sh.2.judged = some .satisfied ∨ sh.2.judged = some .closed

theorem step_consistent
    (hkeeps : a.keepsCallback = true) (hclock : a.clockSet = true) (h : Consistent key sh)
    : Consistent key (History.step key sh a) := by
  have heffect := step_effect hkeeps h.regular key
  have hregular := step_regular hkeeps hclock h.regular
  cases hjudges : sh.1.judges key a with
  | none =>
    obtain ⟨hfired, htold⟩ := heffect.unjudged hjudges
    constructor
    . exact hregular
    . intro hjudged
      simp only [step, observe, hjudges, Option.none_or] at hjudged ⊢
      exact hfired.mpr (h.marked hjudged)
    . intro htold'
      simp [step, observe, hjudges, h.told (htold.mp htold')]
    intro hquorum hchecked
    simp only [step, observe, hjudges, Option.none_or, Option.isNone_none, Bool.true_and,
      Bool.or_eq_false_iff] at hquorum hchecked ⊢
    by_cases hbefore : sh.1.tracker.HasQuorum key
    . exact h.known hbefore hchecked.1
    -- The quorum is new, so a stale validation has brought it.
    by_cases hsatisfied : sh.2.judged = some .satisfied
    . left
      exact hsatisfied
    have hstale : sh.1.storesStale key a = false := by
      simpa [hsatisfied, hbefore, hquorum] using hchecked.2
    exact absurd (step_quorum hjudges hstale hquorum) hbefore
  | some verdict =>
    cases verdict with
    | lost =>
      have hlost := heffect.lost hjudges
      constructor
      . exact hregular
      . intro hjudged
        simp [step, observe, hjudges] at hjudged
      . intro htold
        exact absurd htold.1 hlost
      intro hquorum
      exact absurd hquorum (step_lost hjudges)
    | closed =>
      have htold := heffect.closed hjudges
      constructor
      . exact hregular
      . intro hjudged
        simp [step, observe, hjudges] at hjudged
      . intro htold'
        simp [step, observe, hjudges, h.told (htold.mp htold')]
      intro _ _
      right
      simp [step, observe, hjudges]
    | satisfied =>
      obtain ⟨hfired, _, htold⟩ := heffect.satisfied hjudges
      constructor
      . exact hregular
      . intro _
        exact hfired
      . intro htold'
        cases htold htold' with
        | inl hbefore => simp [step, observe, hjudges, h.told hbefore]
        | inr hreports => simp [step, observe, hreports]
      intro _ _
      left
      simp [step, observe, hjudges]

theorem run_fst (s : System) (key : FinalityKey) (h : History) (actions : List Action)
    : (Transition.run (History.step key) (s, h) actions).1 = run s actions := by
  induction actions using reverseRecOn with
  | nil => rfl
  | append_singleton actions a ih =>
    rw [Transition.run_concat, run, Transition.run_concat, ← run, ← ih]
    rfl

theorem run_consistent (trusted negUNL : List NodeID) (quorum : Int)
    (hkeeps : ∀ a ∈ actions, a.keepsCallback = true) (hclock : ∀ a ∈ actions, a.clockSet = true)
    (key : FinalityKey)
    : Consistent key (Transition.run (History.step key)
        (configured trusted negUNL quorum true, ⟨none, false, false⟩) actions) := by
  apply Transition.run_invariant (History.step key) (Consistent key)
    (fun a => a.keepsCallback = true ∧ a.clockSet = true)
  . constructor
    . apply configured_regular
    . intro hjudged
      contradiction
    . intro htold
      exact absurd htold.1 (not_mem_nil)
    intro hquorum
    exact absurd hquorum (Op.not_hasQuorum_of_lookup rfl)
  . intro sh a ha hsh
    exact step_consistent ha.1 ha.2 hsh
  intro a ha
  exact ⟨hkeeps a ha, hclock a ha⟩

end History

theorem pending_eq_nil_of_quiescent (h : s.Progressing) (hquiescent : s.quiescent = true)
    : s.tracker.pendingFinality = [] := by
  simp only [quiescent, Bool.and_eq_true, beq_iff_eq, Bool.not_eq_true'] at hquiescent
  by_contra hpending
  rcases h hpending with hdraining | hdispatching | hdeferrals
  . omega
  . simp [hquiescent.1.2] at hdispatching
  . omega

def invocations : System → List Action → List FinalityKey
  | _, [] => []
  | s, a :: actions => (s.invokes a).toList ++ invocations (s.step a) actions

def sampleSystem : System := configured [sampleNode 1, sampleNode 2] [] 2 true

def samplePair : FinalityKey := { ledgerID := sampleLedger 1, ledgerSeq := 7 }

def sampleAddAt (v : Validation) (now : Time) (unavailable : Bool) : Action :=
  .call (.addStatus v now now unavailable true)

-- The rest of an operation: it drains the queue, and the dispatcher goes on until it stops.
def drained : List Action := [.drain, .dispatch false, .callbackReturns, .dispatch false]

-- The second validation of node 2 completes the quorum, but it is signed before the first.
def staleRun : List Action :=
  sampleAddAt (sampleValidation 1 1 7 (10 * minute)) (10 * minute) false :: drained ++
  sampleAddAt (sampleValidation 2 2 6 (11 * minute)) (11 * minute) false :: drained ++
  sampleAddAt (sampleValidation 2 1 7 (10 * minute)) (11 * minute) false :: drained

-- The gate is closed while the quorum forms and open for the next operation.
def closedRun : List Action :=
  sampleAddAt (sampleValidation 1 1 7 (10 * minute)) (10 * minute) true :: drained ++
  sampleAddAt (sampleValidation 2 1 7 (10 * minute)) (10 * minute) true :: drained ++
  sampleAddAt (sampleValidation 1 2 8 (11 * minute)) (11 * minute) false :: drained

-- The gate closes and opens again after the pair was reported.
def reportedRun : List Action :=
  sampleAddAt (sampleValidation 1 1 7 (10 * minute)) (10 * minute) false :: drained ++
  sampleAddAt (sampleValidation 2 1 7 (10 * minute)) (10 * minute) false :: drained

def reopenedRun : List Action :=
  reportedRun ++ .call (.recheckFinality fun _ => true) :: drained ++
  .call (.recheckFinality fun _ => false) :: drained

theorem satisfied_pair_not_reported
    : ((run sampleSystem staleRun).quiescent = true ∧
        (run sampleSystem staleRun).tracker.HasQuorum samplePair ∧
        invocations sampleSystem staleRun = []) ∧
      ((run sampleSystem closedRun).quiescent = true ∧
        (run sampleSystem closedRun).tracker.HasQuorum samplePair ∧
        invocations sampleSystem closedRun = []) ∧
      ((run sampleSystem reopenedRun).quiescent = true ∧
        (run sampleSystem reopenedRun).tracker.HasQuorum samplePair ∧
        invocations sampleSystem reportedRun = [samplePair] ∧
        invocations sampleSystem reopenedRun = [samplePair]) := by
  decide

/--
The callback is invoked for a pair only while at least `max 1 quorum` validators stand behind it and
the gate is open, and not again before the pair has lost its quorum.
-/
theorem finality_reported (trusted negUNL : List NodeID) (quorum : Int) (actions : List Action)
    (hkeeps : ∀ a ∈ actions, a.keepsCallback = true) (hclock : ∀ a ∈ actions, a.clockSet = true)
    : let s := configured trusted negUNL quorum true
      (∀ p a key, Occurs p a actions → (run s p).invokes a = some key →
        (run s p).tracker.HasQuorum key ∧ a = .dispatch false) ∧
      (∀ p a q b key, Occurs (p ++ a :: q) b actions → (run s p).invokes a = some key →
        (run s (p ++ a :: q)).invokes b = some key →
        ∃ r, r <+: q ∧ ¬ (run s (p ++ a :: r)).tracker.HasQuorum key) ∧
      (∀ p key, p <+: actions → (run s p).quiescent = true → (run s p).tracker.HasQuorum key →
        (history s key p).unchecked = false → (history s key p).judged ≠ some .closed →
        (history s key p).reported = true) := by
  intro s
  refine ⟨?_, ?_, ?_⟩
  . intro p a key _ hinvokes
    obtain ⟨unavailable, ha, _, hinvoke⟩ := invokes_eq_some hinvokes
    obtain ⟨_, hquorum, hgate⟩ := dispatchNext_invoke hinvoke
    rw [ha, hgate]
    exact ⟨hquorum, rfl⟩
  . intro p a q b key hb hinvokes hinvokes'
    by_contra hkept
    have hmem : ∀ c ∈ p ++ a :: q, c ∈ actions := fun c hc => hb.prefix_left.subset hc
    apply not_invokes_of_told b _ hinvokes'
    apply told_between (configured_regular trusted negUNL quorum) _ _ hinvokes
    . intro r hr
      by_contra hlost
      exact hkept ⟨r, hr, hlost⟩
    . intro c hc
      exact hkeeps c (hmem c hc)
    intro c hc
    exact hclock c (hmem c hc)
  intro p key hp hquiescent hquorum hchecked hclosed
  have hconsistent := History.run_consistent trusted negUNL quorum
    (fun a ha => hkeeps a (hp.subset ha))
    (fun a ha => hclock a (hp.subset ha)) key
  have hfst := History.run_fst s key ⟨none, false, false⟩ p
  have hnil := pending_eq_nil_of_quiescent (run_regular (configured_regular trusted negUNL quorum)
    (fun a ha => hkeeps a (hp.subset ha)) (fun a ha => hclock a (hp.subset ha))).progressing
    hquiescent
  have hpending : key ∉ (run s p).tracker.pendingGeneration := by
    intro hmem
    obtain ⟨generation, hgeneration⟩ := Option.isSome_iff_exists.mp (AList.lookup_isSome.mpr hmem)
    rw [← hfst] at hgeneration hnil
    have hqueued := hconsistent.regular.queued.queued key generation hgeneration
    rw [hnil] at hqueued
    contradiction
  apply hconsistent.told
  rw [hfst]
  refine ⟨?_, hpending⟩
  rw [← hfst] at hquorum ⊢
  cases hconsistent.known hquorum hchecked with
  | inl hsatisfied => exact hconsistent.marked hsatisfied
  | inr h => exact absurd h hclosed

theorem finality_reported_sample
    : (run sampleSystem reportedRun).quiescent = true ∧
      (run sampleSystem reportedRun).tracker.HasQuorum samplePair ∧
      (history sampleSystem samplePair reportedRun).reported = true := by
  have hreported := (finality_reported [sampleNode 1, sampleNode 2] [] 2 reportedRun (by decide)
    (by decide)).2.2 reportedRun samplePair prefix_rfl (by decide) (by decide) (by decide)
    (by decide)
  exact ⟨by decide, by decide, hreported⟩

end Validations
