import GoXrpl.Disputes.Lemmas.Engine

open List AList Option

namespace Disputes

open Validations (NodeID)
open Consensus (TxSetID)
open Assoc (mem_of_lookup)

namespace Engine

variable [Sha512Half] {e e' : Engine} {id : TxSetID}

structure Sound (e : Engine) : Prop where
  counted : ∀ t d, e.disputeTracker.lookup t = some d → d.Counted
  tx : ∀ t d, e.disputeTracker.lookup t = some d → computeTxID d.tx = t
  holder : ∀ t d n v, e.disputeTracker.lookup t = some d → d.votes.lookup n = some v →
    n ∈ e.proposals
  trusted : ∀ n ∈ e.proposals, n ∈ e.trusted ∨ n ∈ e.pendingTrustPurge
  acquired : ∀ id s, e.acquiredTxSets.lookup id = some s → s.id = id
  ours : ∀ s, e.ourTxSet = some s → e.acquiredTxSets.lookup s.id = some s
  compared : ∀ id ∈ e.comparesTxSets, id ∈ e.acquiredTxSets
  quiet : e.ourTxSet = none → e.comparesTxSets = [] ∧ e.disputeTracker = ∅
  differ : ∀ ours id s t, e.ourTxSet = some ours → id ∈ e.comparesTxSets →
    e.acquiredTxSets.lookup id = some s → ours.contains t ≠ s.contains t → t ∈ e.disputeTracker

section

variable (h : e.Sound)

include h

-- The disputes change one by one, and those who have voted on them still hold positions.
theorem Sound.map_disputes {proposals : AList fun _ : NodeID => Proposal}
    (f : TxID → DisputedTx → DisputedTx) (counter : Nat)
    (hcounted : ∀ t d, d.Counted → (f t d).Counted) (htx : ∀ t d, (f t d).tx = d.tx)
    (hvotes : ∀ t d n v, (∀ v', d.votes.lookup n = some v' → n ∈ e.proposals) →
      (f t d).votes.lookup n = some v → n ∈ proposals)
    (hproposals : ∀ n ∈ proposals, n ∈ e.proposals)
    : { e with
        proposals
        disputeTracker := Assoc.mapValues f e.disputeTracker
        peerUnchangedCounter := counter : Engine }.Sound where
  counted := by
    intro t d hd
    obtain ⟨d', hd', rfl⟩ := map_eq_some_iff.mp (Assoc.lookup_mapValues f _ t ▸ hd)
    exact hcounted t d' (h.counted t d' hd')
  tx := by
    intro t d hd
    obtain ⟨d', hd', rfl⟩ := map_eq_some_iff.mp (Assoc.lookup_mapValues f _ t ▸ hd)
    rw [htx]
    exact h.tx t d' hd'
  holder := by
    intro t d n v hd
    obtain ⟨d', hd', rfl⟩ := map_eq_some_iff.mp (Assoc.lookup_mapValues f _ t ▸ hd)
    exact hvotes t d' n v fun v' hv' => h.holder t d' n v' hd' hv'
  trusted := fun n hn => h.trusted n (hproposals n hn)
  acquired := h.acquired
  ours := h.ours
  compared := h.compared
  quiet := by
    intro hours
    refine ⟨(h.quiet hours).1, ?_⟩
    rw [(h.quiet hours).2]
    rfl
  differ := by
    intro ours id s t hours hid hs hdiffer
    have hmem := h.differ ours id s t hours hid hs hdiffer
    rw [← lookup_isSome] at hmem ⊢
    rw [Assoc.lookup_mapValues, isSome_map]
    exact hmem

theorem Sound.dropNode (n : NodeID) : (e.dropNode n).Sound := by
  refine h.map_disputes (fun _ d => d.unVote n) _ (fun _ _ hd => hd.unVote)
    (fun _ _ => DisputedTx.tx_unVote) ?_ ?_
  . intro t d m v hold hv
    rw [DisputedTx.lookup_votes_unVote] at hv
    by_cases hm : m = n
    . rw [if_pos hm] at hv
      cases hv
    rw [if_neg hm] at hv
    exact mem_erase.mpr ⟨hm, hold v hv⟩
  . exact fun m hm => (mem_erase.mp hm).2

theorem Sound.foldl_dropNode (l : List NodeID) : (l.foldl Engine.dropNode e).Sound := by
  induction l generalizing e with
  | nil => exact h
  | cons n l ih => exact ih (h.dropNode n)

theorem Sound.purgePendingTrust : e.purgePendingTrust.Sound := by
  have hdrop := h.foldl_dropNode e.pendingTrustPurge
  refine ⟨hdrop.counted, hdrop.tx, hdrop.holder, ?_, hdrop.acquired, hdrop.ours, hdrop.compared,
    hdrop.quiet, hdrop.differ⟩
  intro n hn
  obtain ⟨hmem, hpending⟩ := mem_proposals_foldl_dropNode.mp hn
  left
  show n ∈ (e.pendingTrustPurge.foldl Engine.dropNode e).trusted
  rw [Engine.foldl_dropNode]
  exact (h.trusted n hmem).resolve_right hpending

theorem Sound.pruneUntrustedProposals : e.pruneUntrustedProposals.Sound :=
  (h.purgePendingTrust.foldl_dropNode _).purgePendingTrust

theorem Sound.recordTrustTransition (trusted : List NodeID)
    : (e.recordTrustTransition trusted).Sound where
  counted := h.counted
  tx := h.tx
  holder := h.holder
  trusted := by
    intro n hn
    by_cases hnew : n ∈ trusted
    . exact .inl hnew
    right
    apply mem_append.mpr
    cases h.trusted n hn with
    | inl hold => exact .inl (mem_filter.mpr ⟨hold, by simpa using hnew⟩)
    | inr hpending => exact .inr hpending
  acquired := h.acquired
  ours := h.ours
  compared := h.compared
  quiet := h.quiet
  differ := h.differ

theorem Sound.acquire (hid : s.id = id) (hnew : id ∉ e.acquiredTxSets)
    : (e.acquire id s).Sound where
  counted := h.counted
  tx := h.tx
  holder := h.holder
  trusted := h.trusted
  acquired := by
    intro id' s' hs'
    rcases Assoc.lookup_insert_cases hs' with ⟨rfl, rfl⟩ | hs'
    . exact hid
    . exact h.acquired id' s' hs'
  ours := by
    intro s' hs'
    have hlookup := h.ours s' hs'
    refine (lookup_insert_ne ?_).trans hlookup
    rintro rfl
    exact hnew (mem_of_lookup hlookup)
  compared := fun id' hid' => mem_insert _ |>.mpr (.inr (h.compared id' hid'))
  quiet := h.quiet
  differ := by
    intro ours id' s' t hours hid' hs' hdiffer
    refine h.differ ours id' s' t hours hid' ?_ hdiffer
    refine (lookup_insert_ne ?_).symm.trans hs'
    rintro rfl
    exact hnew (h.compared id' hid')

theorem Sound.createDisputesAgainst (hs : e.acquiredTxSets.lookup s.id = some s)
    : (e.createDisputesAgainst s).Sound := by
  have hext : Extends e (e.createDisputesAgainst s) := .createDisputesAgainst
  have hcase : ∀ t d, (e.createDisputesAgainst s).disputeTracker.lookup t = some d →
      e.disputeTracker.lookup t = some d ∨ e.Seeded t d := by
    intro t d hd
    cases hold : e.disputeTracker.lookup t with
    | none => exact .inr (hext.new t d hold hd)
    | some d' =>
      have heq := hext.old t d' hold
      rw [hd] at heq
      exact .inl heq.symm
  constructor
  case counted =>
    intro t d hd
    cases hcase t d hd with
    | inl hold => exact h.counted t d hold
    | inr hnew => exact hnew.counted
  case tx =>
    intro t d hd
    cases hcase t d hd with
    | inl hold => exact h.tx t d hold
    | inr hnew => exact hnew.tx
  case holder =>
    intro t d n v hd hv
    rw [hext.rewired.proposals]
    cases hcase t d hd with
    | inl hold => exact h.holder t d n v hold hv
    | inr hnew =>
      rw [hnew.votes] at hv
      obtain ⟨s', hs', -⟩ := map_eq_some_iff.mp hv
      exact mem_proposals_of_standing hs'
  case trusted =>
    rw [hext.rewired.proposals, hext.rewired.trusted, hext.rewired.pendingTrustPurge]
    exact h.trusted
  case acquired =>
    rw [hext.rewired.acquiredTxSets]
    exact h.acquired
  case ours =>
    rw [hext.rewired.ourTxSet, hext.rewired.acquiredTxSets]
    exact h.ours
  case compared =>
    intro id hid
    rw [hext.rewired.acquiredTxSets]
    cases mem_comparesTxSets_createDisputesAgainst hid with
    | inl hold => exact h.compared id hold
    | inr heq => exact heq ▸ mem_of_lookup hs
  case quiet =>
    intro hours
    rw [hext.rewired.ourTxSet] at hours
    have heq : e.createDisputesAgainst s = e := by
      unfold Engine.createDisputesAgainst
      rw [hours]
    rw [heq]
    exact h.quiet hours
  case differ =>
    intro ours id s' t hours hid hs' hdiffer
    rw [hext.rewired.ourTxSet] at hours
    rw [hext.rewired.acquiredTxSets] at hs'
    by_cases hold : id ∈ e.comparesTxSets
    . exact hext.mem (h.differ ours id s' t hours hold hs' hdiffer)
    cases (mem_comparesTxSets_createDisputesAgainst hid).resolve_left hold
    rw [hs] at hs'
    cases hs'
    apply mem_createDisputesAgainst hours _ hold hdiffer
    -- our own set is acquired under its id, so the set with that id is ours
    intro heq
    rw [heq, h.ours ours hours] at hs
    cases hs
    exact hdiffer rfl

theorem Sound.updateDisputes (hn : n ∈ e.proposals) (s : TxSet) : (e.updateDisputes n s).Sound := by
  refine h.map_disputes (fun t d => (updateVoteCount d n (s.contains t)).1) _
    (fun _ _ hd => hd.updateVoteCount) (fun _ _ => DisputedTx.tx_updateVoteCount) ?_ fun _ hm => hm
  intro t d m v hold hv
  rw [DisputedTx.lookup_votes_updateVoteCount] at hv
  by_cases hm : m = n
  . exact hm ▸ hn
  rw [if_neg hm] at hv
  exact hold v hv

theorem Sound.updateStanding (id : TxSetID) (s : TxSet) : (e.updateStanding id s).Sound := by
  have hfold : ∀ (l : List Held) (e' : Engine), e'.Sound →
      (∀ entry ∈ l, entry.1 ∈ e'.proposals) → (l.foldl (e.updateVotes id s) e').Sound := by
    intro l
    induction l with
    | nil => exact fun e' he' _ => he'
    | cons entry l ih =>
      intro e' he' hl
      rw [foldl_cons]
      unfold Engine.updateVotes
      split
      . apply ih _ (he'.updateDisputes (hl entry mem_cons_self) s)
        exact fun entry' hentry' => hl entry' (mem_cons_of_mem entry hentry')
      . exact ih e' he' fun entry' hentry' => hl entry' (mem_cons_of_mem entry hentry')
  apply hfold _ e h
  intro entry hentry
  exact mem_keys_of_mem hentry

theorem Sound.setPosition (hp : p.nodeID ∈ e.trusted) : (e.setPosition p).Sound where
  counted := h.counted
  tx := h.tx
  holder := fun t d n v hd hv => (mem_insert _).mpr (.inr (h.holder t d n v hd hv))
  trusted := by
    intro n hn
    cases (mem_insert _).mp hn with
    | inl heq => exact .inl (heq ▸ hp)
    | inr hold => exact h.trusted n hold
  acquired := h.acquired
  ours := h.ours
  compared := h.compared
  quiet := h.quiet
  differ := h.differ

theorem Sound.setOurTxSet (s : TxSet)
    (hdiffer : ∀ id s' t, id ∈ e.comparesTxSets →
      (e.acquiredTxSets.insert s.id s).lookup id = some s' → s.contains t ≠ s'.contains t →
      t ∈ e.disputeTracker)
    : { e with ourTxSet := some s, acquiredTxSets := e.acquiredTxSets.insert s.id s : Engine }.Sound where
  counted := h.counted
  tx := h.tx
  holder := h.holder
  trusted := h.trusted
  acquired := by
    intro id s' hs'
    rcases Assoc.lookup_insert_cases hs' with ⟨rfl, rfl⟩ | hs'
    . rfl
    . exact h.acquired id s' hs'
  ours := by
    rintro s' ⟨⟩
    apply lookup_insert
  compared := fun id hid => (mem_insert _).mpr (.inr (h.compared id hid))
  quiet := fun hours => by cases hours
  differ := by
    rintro _ id s' t ⟨⟩
    exact hdiffer id s' t

theorem Sound.takeOurTxSet (hnone : e.ourTxSet = none) (s : TxSet) : (e.takeOurTxSet s).Sound := by
  apply Sound.pruneUntrustedProposals
  apply h.setOurTxSet
  intro id s' t hid
  rw [(h.quiet hnone).1] at hid
  cases hid

end

section Update

variable {ours newTxSet : TxSet}

theorem contains_newBlobs (h : e.Sound) {a : Adaptor}
    (hbuild : a.buildTxSet (e.newBlobs ours changed) = some newTxSet) (ht : t ∉ changed)
    : newTxSet.contains t = ours.contains t := by
  have hmem := a.mem_buildTxSet _ _ hbuild t
  have hiff : t ∈ newTxSet.txIDs ↔ t ∈ ours.txIDs := by
    rw [hmem]
    constructor
    . rintro ⟨blob, hblob, rfl⟩
      cases mem_append.mp hblob with
      | inl hkept => exact mem_map_of_mem (mem_of_mem_filter hkept)
      | inr hadded =>
        exfalso
        apply ht
        obtain ⟨t', ht', hsome⟩ := mem_filterMap.mp hadded
        split at hsome
        . cases hsome
        obtain ⟨htx, -⟩ := filter_eq_some_iff.mp hsome
        obtain ⟨d, hd, rfl⟩ := map_eq_some_iff.mp htx
        rw [h.tx t' d hd]
        exact ht'
    intro hours
    obtain ⟨blob, hblob, rfl⟩ := mem_map.mp hours
    refine ⟨blob, mem_append_left _ (mem_filter.mpr ⟨hblob, ?_⟩), rfl⟩
    unfold keep
    rw [if_neg ht]
    exact decide_eq_true hours
  unfold TxSet.contains
  rw [decide_eq_decide]
  exact hiff

theorem Sound.replaceOurTxSet (h : e.Sound) {a : Adaptor} (hours : e.ourTxSet = some ours)
    (hchanged : ∀ t ∈ changed, t ∈ e.disputeTracker)
    (hbuild : a.buildTxSet (e.newBlobs ours changed) = some newTxSet)
    : { e with
        ourTxSet := some newTxSet
        acquiredTxSets := e.acquiredTxSets.insert newTxSet.id newTxSet : Engine }.Sound := by
  apply h.setOurTxSet
  intro id s' t hid hs' hdiffer
  rcases Assoc.lookup_insert_cases hs' with ⟨rfl, rfl⟩ | hs'
  . exact absurd rfl hdiffer
  by_cases ht : t ∈ changed
  . exact hchanged t ht
  rw [contains_newBlobs h hbuild ht] at hdiffer
  exact h.differ ours id s' t hours hid hs' hdiffer

theorem Sound.updateOurVote (h : e.Sound) (parms : VoteParms)
    : { e with disputeTracker := (e.disputeTracker.updateOurVote parms).1 : Engine }.Sound := by
  refine h.map_disputes (fun _ d => (d.updateOurVote parms).1) _
    (fun _ _ hd => hd.updateOurVote parms) (fun _ _ => DisputedTx.tx_updateOurVote parms) ?_
    fun _ hm => hm
  intro t d n v hold hv
  rw [DisputedTx.votes_updateOurVote] at hv
  exact hold v hv

end Update

def VotedFor (e : Engine) (n : NodeID) : Prop :=
  ∀ s, e.standing n = some s → ∀ t d, e.disputeTracker.lookup t = some d →
    d.votes.lookup n = some (s.contains t)

def Voted (e : Engine) : Prop := ∀ n, e.VotedFor n

theorem Voted.of_disputeTracker_eq_empty (h : e.disputeTracker = ∅) : e.Voted := by
  intro n s hs t d hd
  rw [h] at hd
  cases hd

theorem Voted.dropNode (h : e.Voted) (n : NodeID) : (e.dropNode n).Voted := by
  intro m s hs t d hd
  rw [standing_dropNode] at hs
  obtain ⟨d', hd', rfl⟩ := map_eq_some_iff.mp (DisputeTracker.lookup_unVote ▸ hd)
  rw [DisputedTx.lookup_votes_unVote]
  by_cases hm : m = n
  . rw [if_pos hm] at hs
    cases hs
  rw [if_neg hm] at hs ⊢
  exact h m s hs t d' hd'

theorem Voted.foldl_dropNode (h : e.Voted) (l : List NodeID)
    : (l.foldl Engine.dropNode e).Voted := by
  induction l generalizing e with
  | nil => exact h
  | cons n l ih => exact ih (h.dropNode n)

theorem Voted.purgePendingTrust (h : e.Voted) : e.purgePendingTrust.Voted :=
  h.foldl_dropNode e.pendingTrustPurge

theorem Voted.pruneUntrustedProposals (h : e.Voted) : e.pruneUntrustedProposals.Voted :=
  (h.purgePendingTrust.foldl_dropNode _).purgePendingTrust

theorem votedFor_extends (h : Extends e e') : e'.VotedFor n ↔ e.VotedFor n := by
  unfold VotedFor
  rw [h.rewired.standing]
  constructor
  . intro hvoted s hs t d hd
    exact hvoted s hs t d (h.old t d hd)
  intro hvoted s hs t d hd
  cases hold : e.disputeTracker.lookup t with
  | none => rw [(h.new t d hold hd).votes, hs]; rfl
  | some d' =>
    have heq := h.old t d' hold
    rw [hd] at heq
    cases heq
    exact hvoted s hs t d hold

theorem votedFor_updateDisputes_ne (h : m ≠ n)
    : (e.updateDisputes n s).VotedFor m ↔ e.VotedFor m := by
  unfold VotedFor
  rw [Rewired.updateDisputes.standing]
  show (∀ s', _ → ∀ t d, (e.disputeTracker.updateDisputes n s).1.lookup t = some d → _) ↔ _
  simp only [DisputeTracker.lookup_updateDisputes]
  constructor
  . intro hvoted s' hs' t d hd
    have hvote := hvoted s' hs' t _ (by rw [hd]; rfl)
    rwa [DisputedTx.lookup_votes_updateVoteCount, if_neg h] at hvote
  intro hvoted s' hs' t d hd
  obtain ⟨d', hd', rfl⟩ := map_eq_some_iff.mp hd
  rw [DisputedTx.lookup_votes_updateVoteCount, if_neg h]
  exact hvoted s' hs' t d' hd'

theorem votedFor_updateDisputes_self (h : ∀ s', e.standing n = some s' → s' = s)
    : (e.updateDisputes n s).VotedFor n := by
  intro s' hs' t d hd
  rw [Rewired.updateDisputes.standing] at hs'
  cases h s' hs'
  obtain ⟨d', hd', rfl⟩ := map_eq_some_iff.mp (DisputeTracker.lookup_updateDisputes ▸ hd)
  rw [DisputedTx.lookup_votes_updateVoteCount, if_pos rfl]

theorem votedFor_congr (hstanding : e'.standing n = e.standing n)
    (htracker : e'.disputeTracker = e.disputeTracker)
    : e'.VotedFor n ↔ e.VotedFor n := by
  unfold VotedFor
  rw [hstanding, htracker]

theorem votedFor_acquire (h : id ∉ e.acquiredTxSets)
    : (e.acquire id s).VotedFor n
        ↔ e.VotedFor n ∧ ∀ q, n ∈ e.trusted → e.proposals.lookup n = some q → q.txSet = id →
            ∀ t d, e.disputeTracker.lookup t = some d → d.votes.lookup n = some (s.contains t) := by
  constructor
  . intro hvoted
    constructor
    . intro s' hs'
      obtain ⟨q, hq, hn, hlookup⟩ := standing_eq_some_iff.mp hs'
      apply hvoted s'
      refine standing_eq_some_iff.mpr ⟨q, hq, hn, (lookup_insert_ne ?_).trans hlookup⟩
      rintro rfl
      exact h (mem_of_lookup hlookup)
    rintro q hn hq rfl
    apply hvoted s
    exact standing_eq_some_iff.mpr ⟨q, hq, hn, lookup_insert _⟩
  rintro ⟨hvoted, hnew⟩ s' hs'
  obtain ⟨q, hq, hn, hlookup⟩ := standing_eq_some_iff.mp hs'
  by_cases hid : q.txSet = id
  . have heq : s = s' := by
      subst hid
      exact some.inj ((lookup_insert _).symm.trans hlookup)
    subst heq
    exact hnew q hn hq hid
  apply hvoted s'
  exact standing_eq_some_iff.mpr ⟨q, hq, hn, (lookup_insert_ne hid).symm.trans hlookup⟩

theorem Rewired.updateVotes : Rewired e' (e.updateVotes id s e' entry) := by
  unfold Engine.updateVotes
  split
  . exact .updateDisputes
  . exact .refl e'

theorem Rewired.updateStanding : Rewired e (e.updateStanding id s) :=
  .foldl (fun _ _ => .updateVotes) _ _

theorem votedFor_foldl_updateVotes_ne {l : List Held}
    (h : ∀ p, ⟨n, p⟩ ∈ l → n ∈ e.trusted → p.txSet ≠ id)
    : (l.foldl (e.updateVotes id s) e').VotedFor n ↔ e'.VotedFor n := by
  induction l generalizing e' with
  | nil => exact Iff.rfl
  | cons entry l ih =>
    rw [foldl_cons, ih fun p hp => h p (mem_cons_of_mem entry hp)]
    unfold updateVotes
    split
    next hcond =>
      apply votedFor_updateDisputes_ne
      rintro rfl
      exact h entry.2 mem_cons_self hcond.1 hcond.2
    next => exact Iff.rfl

theorem votedFor_foldl_updateVotes {l : List Held} (hl : l.NodupKeys)
    (hp : ⟨n, p⟩ ∈ l) (hn : n ∈ e.trusted) (hid : p.txSet = id)
    (hs : ∀ s', e'.standing n = some s' → s' = s)
    : (l.foldl (e.updateVotes id s) e').VotedFor n := by
  induction l generalizing e' with
  | nil => cases hp
  | cons entry l ih =>
    have hnodup := nodupKeys_cons.mp hl
    rw [foldl_cons]
    cases hp with
    | head =>
      rw [votedFor_foldl_updateVotes_ne]
      . unfold updateVotes
        rw [if_pos ⟨hn, hid⟩]
        exact votedFor_updateDisputes_self hs
      intro p' hp'
      exact absurd (mem_keys_of_mem hp') hnodup.1
    | tail _ hp =>
      apply ih hnodup.2 hp
      rw [Rewired.updateVotes.standing]
      exact hs

theorem Voted.updateStanding (hs : e.acquiredTxSets.lookup id = some s)
    (h : ∀ n, (∀ p, e.proposals.lookup n = some p → p.txSet ≠ id) → e.VotedFor n)
    : (e.updateStanding id s).Voted := by
  intro n
  unfold Engine.updateStanding
  cases hp : e.proposals.lookup n with
  | none =>
    rw [votedFor_foldl_updateVotes_ne]
    . apply h
      intro p hsome
      rw [hp] at hsome
      cases hsome
    intro p hmem
    rw [Assoc.mem_entries_iff.mp hmem] at hp
    cases hp
  | some p =>
    by_cases hcond : n ∈ e.trusted ∧ p.txSet = id
    . apply votedFor_foldl_updateVotes e.proposals.nodupKeys (Assoc.mem_entries_iff.mpr hp)
        hcond.1 hcond.2
      intro s' hs'
      rw [standing_eq_of_lookup hp, positionOf_eq_some_iff, hcond.2, hs] at hs'
      cases hs'.2
      rfl
    rw [votedFor_foldl_updateVotes_ne]
    . by_cases hid : p.txSet = id
      . -- an untrusted peer has no say
        intro s' hs'
        rw [standing_eq_of_lookup hp, positionOf_eq_some_iff] at hs'
        exact absurd ⟨hs'.1, hid⟩ hcond
      apply h
      intro p' hp'
      rw [hp] at hp'
      cases hp'
      exact hid
    intro p' hmem hn hid
    rw [Assoc.mem_entries_iff.mp hmem] at hp
    cases hp
    exact hcond ⟨hn, hid⟩

end Engine

end Disputes
