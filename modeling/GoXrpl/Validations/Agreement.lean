import GoXrpl.Validations.Lemmas.System

open List Validations.System

namespace Validations

open Transition (Occurs)

def configured (trusted negUNL : List NodeID) (quorum : Int) (callback : Bool) : System :=
  .start { Tracker.new quorum with trusted, negUNL, onFullyValidated := callback }

/--
Between two accepted validations of a node no clock reading that is compared with its floor is more
than `validationSetExpires` after the first.
-/
def Timely (s : System) (actions : List Action) : Prop :=
  ∀ p a q b, Occurs (p ++ a :: q) b actions → ∀ v now w now',
    (run s p).accepts a = some (v, now) →
    (run s (p ++ a :: q)).accepts b = some (w, now') → w.nodeID = v.nodeID →
    (∀ r c, Occurs r c q → ∀ u time, (run s (p ++ a :: r)).accepts c = some (u, time) →
      u.nodeID ≠ v.nodeID) →
    ∀ r c, Occurs r c (q ++ [b]) → ∀ time, (run s (p ++ a :: r)).reads v.nodeID c = some time →
      time - now ≤ validationSetExpires

variable {s : System}

theorem run_cons_concat (p : List Action) (a : Action) (q : List Action) (b : Action)
    : run s (p ++ a :: (q ++ [b])) = (run s (p ++ a :: q)).step b := by
  rw [← cons_append, ← append_assoc, run, Transition.run_concat]

-- The induction is on the actions since the validation was accepted.
theorem floor_between (ha : (run s p).accepts a = some (v, now)) (hflush : Action.call .flush ∉ q)
    (hnone : ∀ r c, Occurs r c q → ∀ u time,
      (run s (p ++ a :: r)).accepts c = some (u, time) → u.nodeID ≠ v.nodeID)
    (hreads : ∀ r c, Occurs r c q → ∀ time,
      (run s (p ++ a :: r)).reads v.nodeID c = some time → time - now ≤ validationSetExpires)
    : (run s (p ++ a :: q)).tracker.floor v.nodeID =
        some { seq := v.ledgerSeq, when := now } := by
  induction q using reverseRecOn with
  | nil =>
    rw [run, Transition.run_concat]
    exact step_floor_of_accepts ha
  | append_singleton q b ih =>
    have hb : Occurs q b (q ++ [b]) := prefix_rfl
    have hq : q <+: q ++ [b] := prefix_append _ _
    rw [run_cons_concat]
    apply step_floor_of_not_accepts
    . apply ih
      . intro hmem
        exact hflush (mem_append_left _ hmem)
      . intro r c hc
        exact hnone r c (hc.trans hq)
      intro r c hc
      exact hreads r c (hc.trans hq)
    . intro heq
      exact hflush (by simp [heq])
    . exact hnone q b hb
    . exact hreads q b hb

theorem seq_lt_of_consecutive (htimely : Timely s actions) (hflush : Action.call .flush ∉ actions)
    (hb : Occurs (p ++ a :: q) b actions) (hv : (run s p).accepts a = some (v, now))
    (hw : (run s (p ++ a :: q)).accepts b = some (w, now')) (hnode : w.nodeID = v.nodeID)
    (hnone : ∀ r c, Occurs r c q → ∀ u time,
      (run s (p ++ a :: r)).accepts c = some (u, time) → u.nodeID ≠ v.nodeID)
    : v.ledgerSeq < w.ledgerSeq := by
  have hreads := htimely p a q b hb v now w now' hv hw hnode hnone
  have hfloor : (run s (p ++ a :: q)).tracker.floor v.nodeID =
      some { seq := v.ledgerSeq, when := now } := by
    apply floor_between hv
    . intro hmem
      apply hflush
      apply hb.prefix_left.subset
      simp [hmem]
    . exact hnone
    intro r c hc
    exact hreads r c (hc.trans (prefix_append _ _))
  rw [← hnode] at hfloor
  apply lt_of_accepts hw hfloor
  apply hreads q b prefix_rfl
  rw [← hnode]
  exact reads_of_accepts hw

-- The induction is on the number of actions between the two.
theorem seq_lt_of_accepts (htimely : Timely s actions) (hflush : Action.call .flush ∉ actions)
    (hb : Occurs (p ++ a :: q) b actions) (hv : (run s p).accepts a = some (v, now))
    (hw : (run s (p ++ a :: q)).accepts b = some (w, now')) (hnode : w.nodeID = v.nodeID)
    : v.ledgerSeq < w.ledgerSeq := by
  induction hn : q.length using Nat.strong_induction_on generalizing p a q b v w now now' with
  | _ n ih =>
    by_cases hbetween : ∃ r c u time, Occurs r c q ∧
        (run s (p ++ a :: r)).accepts c = some (u, time) ∧ u.nodeID = v.nodeID
    . obtain ⟨r, c, u, time, ⟨q', hq'⟩, hu, hunode⟩ := hbetween
      have hq : q = r ++ c :: q' := by simpa using hq'.symm
      subst hq
      simp only [length_append, length_cons] at hn
      have hsplit : p ++ a :: (r ++ c :: q') = (p ++ a :: r) ++ c :: q' := by simp
      rw [hsplit] at hb hw
      have hfirst : v.ledgerSeq < u.ledgerSeq := by
        apply ih r.length (by omega) _ hv hu hunode rfl
        exact Occurs.of_append.trans hb.prefix_left
      have hsecond : u.ledgerSeq < w.ledgerSeq := by
        apply ih q'.length (by omega) hb hu hw _ rfl
        rw [hnode, hunode]
      exact hfirst.trans hsecond
    apply seq_lt_of_consecutive htimely hflush hb hv hw hnode
    intro r c hc u time hu hunode
    exact hbetween ⟨r, c, u, time, hc, hu, hunode⟩

theorem exists_accepts_of_recorded
    (h : (run (configured trusted negUNL quorum callback) p).tracker.recorded l nodeID = some v)
    : ∃ p' a now, Occurs p' a p ∧
        (run (configured trusted negUNL quorum callback) p').accepts a = some (v, now) ∧
        l = v.ledgerID ∧ nodeID = v.nodeID := by
  obtain ⟨p', a, ha, hbefore, hafter⟩ := Transition.exists_occurs_of_run step
    (P := fun s => s.tracker.recorded l nodeID = some v) (by
      intro h
      contradiction) h
  cases step_recorded hafter with
  | inl hold => exact absurd hold hbefore
  | inr hnew =>
    obtain ⟨now, haccepts, hkey⟩ := hnew
    exact ⟨p', a, now, ha, haccepts, hkey⟩

theorem ledgerID_eq_of_recorded
    (htimely : Timely (configured trusted negUNL quorum callback) actions)
    (hflush : Action.call .flush ∉ actions) (hp : p <+: actions) (hp' : p' <+: actions)
    (hv : (run (configured trusted negUNL quorum callback) p).tracker.recorded l nodeID = some v)
    (hv' : (run (configured trusted negUNL quorum callback) p').tracker.recorded l' nodeID =
      some v') (hseq : v.ledgerSeq = v'.ledgerSeq)
    : l = l' := by
  obtain ⟨r, a, now, ha, haccepts, hl, hnode⟩ := exists_accepts_of_recorded hv
  obtain ⟨r', a', now', ha', haccepts', hl', hnode'⟩ := exists_accepts_of_recorded hv'
  have hsame : v'.nodeID = v.nodeID := hnode'.symm.trans hnode
  rcases (ha.trans hp).trichotomy (ha'.trans hp') with ⟨hr, haa⟩ | hbefore | hafter
  . subst hr haa
    rw [haccepts] at haccepts'
    have hvv : v = v' := by simp_all
    rw [hl, hl', hvv]
  . obtain ⟨q, hq⟩ := hbefore
    have hr' : r' = r ++ a :: q := by simpa using hq.symm
    subst hr'
    have := seq_lt_of_accepts htimely hflush (ha'.trans hp') haccepts haccepts' hsame
    omega
  obtain ⟨q, hq⟩ := hafter
  have hr : r = r' ++ a' :: q := by simpa using hq.symm
  subst hr
  have := seq_lt_of_accepts htimely hflush (ha.trans hp) haccepts' haccepts hsame.symm
  omega

theorem run_voting (hvoting : ∀ a ∈ actions, a.keepsVoting = true)
    : (run (configured trusted negUNL quorum callback) actions).tracker.trusted = trusted ∧
        (run (configured trusted negUNL quorum callback) actions).tracker.negUNL = negUNL ∧
        (run (configured trusted negUNL quorum callback) actions).tracker.quorum = quorum := by
  apply Transition.run_invariant step (fun s => s.tracker.trusted = trusted ∧
    s.tracker.negUNL = negUNL ∧ s.tracker.quorum = quorum) (·.keepsVoting = true) _ _ hvoting
  . exact ⟨rfl, rfl, rfl⟩
  intro s a ha hs
  obtain ⟨htrusted, hnegUNL, hquorum⟩ := step_voting (s := s) ha
  rw [htrusted, hnegUNL, hquorum]
  exact hs

theorem run_supersedes (h : p <+: p')
    : Tracker.Supersedes (run s p').tracker.retainedQuorum (run s p).tracker.retainedQuorum := by
  obtain ⟨q, hq⟩ := h
  subst hq
  rw [run, Transition.run_append]
  apply Transition.run_invariant step (fun s' =>
    Tracker.Supersedes s'.tracker.retainedQuorum (run s p).tracker.retainedQuorum) (fun _ => True)
  . apply Tracker.Supersedes.refl
  . intro s' a _ hs'
    exact (s'.step_supersedes a).trans hs'
  intros
  trivial

theorem voters_subset (t : Tracker) (key : FinalityKey)
    : t.voters key ⊆ t.trusted.toFinset \ t.negUNL.toFinset := by
  intro nodeID hnode
  obtain ⟨htrusted, hneg, _⟩ := Tracker.mem_voters.mp hnode
  simp [htrusted, hneg]

theorem exists_common_voter {t t' : Tracker}
    (hquorum : ((trusted.toFinset \ negUNL.toFinset).card : Int) < 2 * quorum)
    (ht : t.trusted = trusted ∧ t.negUNL = negUNL ∧ t.quorum = quorum)
    (ht' : t'.trusted = trusted ∧ t'.negUNL = negUNL ∧ t'.quorum = quorum)
    (h : t.HasQuorum key) (h' : t'.HasQuorum key')
    : ∃ nodeID, t.Counts key nodeID ∧ t'.Counts key' nodeID := by
  have hsub := voters_subset t key
  have hsub' := voters_subset t' key'
  unfold Tracker.HasQuorum at h h'
  rw [ht.1, ht.2.1] at hsub
  rw [ht'.1, ht'.2.1] at hsub'
  rw [ht.2.2] at h
  rw [ht'.2.2] at h'
  obtain ⟨nodeID, hnode⟩ := Finset.inter_nonempty_of_card_lt_card_add_card hsub hsub' (by omega)
  simp only [Finset.mem_inter, Tracker.mem_voters] at hnode
  exact ⟨nodeID, hnode⟩

/--
No two conflicting ledgers are finalized.
-/
theorem no_conflicting_finality (trusted negUNL : List NodeID) (quorum : Int) (callback : Bool)
    (actions : List Action)
    (hquorum : ((trusted.toFinset \ negUNL.toFinset).card : Int) < 2 * quorum)
    (hvoting : ∀ a ∈ actions, a.keepsVoting = true) (hflush : Action.call .flush ∉ actions)
    (htimely : Timely (configured trusted negUNL quorum callback) actions)
    : let s := configured trusted negUNL quorum callback
      (∀ p a p' a' key key', Occurs p a actions → Occurs p' a' actions →
        (run s p).invokes a = some key → (run s p').invokes a' = some key' →
        key.ledgerSeq = key'.ledgerSeq → key.ledgerID = key'.ledgerID) ∧
      (∀ p p' nodeID key key', p <+: actions → p' <+: actions →
        (run s p).tracker.Counts key nodeID → (run s p').tracker.Counts key' nodeID →
        key.ledgerSeq = key'.ledgerSeq → key.ledgerID = key'.ledgerID) ∧
      (∀ p p', p <+: p' → p' <+: actions →
        Tracker.Supersedes (run s p').tracker.retainedQuorum (run s p).tracker.retainedQuorum) := by
  intro s
  have hcounts : ∀ p p' nodeID key key', p <+: actions → p' <+: actions →
      (run s p).tracker.Counts key nodeID → (run s p').tracker.Counts key' nodeID →
      key.ledgerSeq = key'.ledgerSeq → key.ledgerID = key'.ledgerID := by
    intro p p' nodeID key key' hp hp' hcount hcount' hseq
    obtain ⟨_, _, v, hv, _, hvseq⟩ := hcount
    obtain ⟨_, _, v', hv', _, hvseq'⟩ := hcount'
    apply ledgerID_eq_of_recorded htimely hflush hp hp' hv hv'
    rw [hvseq, hvseq', hseq]
  refine ⟨?_, hcounts, ?_⟩
  . intro p a p' a' key key' ha ha' hkey hkey' hseq
    have hp : ∀ b ∈ p, b.keepsVoting = true := fun b hb => hvoting b (ha.prefix_left.subset hb)
    have hp' : ∀ b ∈ p', b.keepsVoting = true := fun b hb => hvoting b (ha'.prefix_left.subset hb)
    obtain ⟨nodeID, hcount, hcount'⟩ := exists_common_voter hquorum (run_voting hp) (run_voting hp')
      (hasQuorum_of_invokes hkey) (hasQuorum_of_invokes hkey')
    exact hcounts p p' nodeID key key' ha.prefix_left ha'.prefix_left hcount hcount' hseq
  intro p p' h _
  exact run_supersedes h

def sampleNode (n : UInt8) : NodeID := Vector.replicate 20 n

def sampleLedger (n : UInt8) : LedgerID := Vector.replicate 32 n

def sampleValidation (node : UInt8) (ledger : UInt8) (seq : Nat) (signTime : Time) : Validation where
  ledgerID := sampleLedger ledger
  ledgerSeq := seq
  nodeID := sampleNode node
  signTime := signTime
  seenTime := 0
  full := true
  cookie := 0

def sampleAdd (v : Validation) : Action := .call (.addStatus v v.signTime v.signTime false true)

-- Two of three validators sign one ledger, the third signs another one of the same sequence.
def sampleVotes : List Action :=
  [sampleAdd (sampleValidation 1 1 7 (10 * minute)),
    sampleAdd (sampleValidation 2 1 7 (10 * minute)),
    sampleAdd (sampleValidation 3 2 7 (10 * minute)),
    .drain, .dispatch false, .callbackReturns, .dispatch false]

def Action.signer : Action → Option NodeID
  | .call (.addStatus v _ _ _ _) => some v.nodeID
  | _ => none

theorem signer_of_accepts (h : s.accepts a = some (v, now)) : a.signer = some v.nodeID := by
  unfold accepts at h
  split at h
  . split at h
    . obtain ⟨_, _, _, hop, _⟩ := Op.accepted_eq_some h
      rw [hop]
      rfl
    . contradiction
  . contradiction

-- Nothing has to be in time when every validator signs once.
theorem timely_of_pairwise (h : actions.Pairwise fun a b => a.signer = none ∨ a.signer ≠ b.signer)
    : Timely s actions := by
  intro p a q b hb v now w now' hv hw hnode
  obtain ⟨r, hr⟩ := hb
  have hpair : [a, b].Sublist actions := by
    rw [← hr]
    simp only [append_assoc, cons_append, nil_append]
    apply List.Sublist.trans _ (sublist_append_right p _)
    apply List.Sublist.cons_cons
    apply List.Sublist.trans _ (sublist_append_right q _)
    apply List.Sublist.cons_cons
    apply nil_sublist
  have hsigner := pairwise_pair.mp (h.sublist hpair)
  rw [signer_of_accepts hv, signer_of_accepts hw, hnode] at hsigner
  simp at hsigner

theorem no_conflicting_finality_sample
    : let s := configured [sampleNode 1, sampleNode 2, sampleNode 3] [] 2 true
      (∀ p a p' a' key key', Occurs p a sampleVotes → Occurs p' a' sampleVotes →
        (run s p).invokes a = some key → (run s p').invokes a' = some key' →
        key.ledgerSeq = key'.ledgerSeq → key.ledgerID = key'.ledgerID) := by
  have htimely : Timely (configured [sampleNode 1, sampleNode 2, sampleNode 3] [] 2 true)
      sampleVotes := by
    apply timely_of_pairwise
    decide
  exact (no_conflicting_finality [sampleNode 1, sampleNode 2, sampleNode 3] [] 2 true sampleVotes
    (by decide) (by decide) (by simp [sampleVotes, sampleAdd]) htimely).1

end Validations
