import GoXrpl.Disputes.Impl.Engine
import GoXrpl.Disputes.Lemmas.Tracker

open List AList

namespace Disputes

open Validations (NodeID)
open Consensus (TxSetID)

namespace Engine

variable {e e' e'' : Engine}

structure Rewired (e e' : Engine) : Prop where
  phase : e'.phase = e.phase
  trusted : e'.trusted = e.trusted
  pendingTrustPurge : e'.pendingTrustPurge = e.pendingTrustPurge
  proposals : e'.proposals = e.proposals
  ourTxSet : e'.ourTxSet = e.ourTxSet
  acquiredTxSets : e'.acquiredTxSets = e.acquiredTxSets

theorem Rewired.refl (e : Engine) : Rewired e e := by
  constructor <;> rfl

theorem Rewired.trans (h : Rewired e e') (h' : Rewired e' e'') : Rewired e e'' where
  phase := h'.phase.trans h.phase
  trusted := h'.trusted.trans h.trusted
  pendingTrustPurge := h'.pendingTrustPurge.trans h.pendingTrustPurge
  proposals := h'.proposals.trans h.proposals
  ourTxSet := h'.ourTxSet.trans h.ourTxSet
  acquiredTxSets := h'.acquiredTxSets.trans h.acquiredTxSets

theorem Rewired.positionOf (h : Rewired e e') : e'.positionOf = e.positionOf := by
  funext n p
  unfold Engine.positionOf
  rw [h.trusted, h.acquiredTxSets]

theorem Rewired.foldl {α : Type} {f : Engine → α → Engine} (hf : ∀ e a, Rewired e (f e a))
    (l : List α) (e : Engine)
    : Rewired e (l.foldl f e) := by
  induction l generalizing e with
  | nil => exact .refl e
  | cons a l ih => exact (hf e a).trans (ih (f e a))

def standing (e : Engine) (n : NodeID) : Option TxSet :=
  (e.proposals.lookup n).bind (e.positionOf n)

theorem Rewired.standing (h : Rewired e e') : e'.standing = e.standing := by
  funext n
  unfold Engine.standing
  rw [h.proposals, h.positionOf]

theorem standing_eq_of_lookup (h : e.proposals.lookup n = some p)
    : e.standing n = e.positionOf n p := by
  unfold standing
  rw [h]
  rfl

theorem positionOf_eq_some_iff
    : e.positionOf n p = some s ↔ n ∈ e.trusted ∧ e.acquiredTxSets.lookup p.txSet = some s := by
  unfold positionOf
  by_cases hn : n ∈ e.trusted
  . simp [hn]
  . simp [hn]

theorem standing_eq_some_iff
    : e.standing n = some s
        ↔ ∃ p, e.proposals.lookup n = some p ∧ n ∈ e.trusted
            ∧ e.acquiredTxSets.lookup p.txSet = some s := by
  unfold standing
  rw [Option.bind_eq_some_iff]
  simp only [positionOf_eq_some_iff]

theorem mem_proposals_of_standing (h : e.standing n = some s) : n ∈ e.proposals := by
  obtain ⟨p, hp, -⟩ := Option.bind_eq_some_iff.mp h
  exact Assoc.mem_of_lookup hp

section Drop

variable {l : List NodeID}

theorem standing_dropNode : (e.dropNode n).standing m = if m = n then none else e.standing m := by
  show ((e.proposals.erase n).lookup m).bind _ = _
  by_cases hm : m = n
  . subst hm
    rw [lookup_erase, if_pos rfl]
    rfl
  rw [lookup_erase_ne hm, if_neg hm]
  rfl

theorem foldl_dropNode (l : List NodeID) (e : Engine)
    : l.foldl dropNode e
        = { e with
          proposals := l.foldl (fun m n => m.erase n) e.proposals
          disputeTracker := l.foldl (fun dt n => dt.unVote n) e.disputeTracker } := by
  induction l generalizing e with
  | nil => rfl
  | cons n l ih => exact ih (e.dropNode n)

theorem purgePendingTrust_eq (e : Engine)
    : e.purgePendingTrust
        = { e with
          pendingTrustPurge := []
          proposals := e.pendingTrustPurge.foldl (fun m n => m.erase n) e.proposals
          disputeTracker := e.pendingTrustPurge.foldl (fun dt n => dt.unVote n) e.disputeTracker }
    := by
  unfold purgePendingTrust
  rw [foldl_dropNode]

theorem lookup_proposals_foldl_dropNode
    : (l.foldl dropNode e).proposals.lookup n = if n ∈ l then none else e.proposals.lookup n := by
  induction l generalizing e with
  | nil => simp
  | cons m l ih =>
    rw [foldl_cons, ih]
    by_cases hl : n ∈ l
    . rw [if_pos hl, if_pos (mem_cons_of_mem m hl)]
    rw [if_neg hl]
    show (e.proposals.erase m).lookup n = _
    by_cases hm : n = m
    . subst hm
      rw [lookup_erase, if_pos mem_cons_self]
    . rw [lookup_erase_ne hm, if_neg (by simp [hm, hl])]

theorem mem_proposals_foldl_dropNode
    : n ∈ (l.foldl dropNode e).proposals ↔ n ∈ e.proposals ∧ n ∉ l := by
  rw [← lookup_isSome, ← lookup_isSome, lookup_proposals_foldl_dropNode]
  by_cases hl : n ∈ l
  . simp [hl]
  . simp [hl]

theorem foldl_unVote_empty (l : List NodeID)
    : l.foldl (fun dt n => dt.unVote n) (∅ : DisputeTracker) = ∅ := by
  induction l with
  | nil => rfl
  | cons n l ih => exact ih

theorem pruneUntrustedProposals_eq (e : Engine)
    : e.pruneUntrustedProposals
        = { e with
          pendingTrustPurge := []
          proposals := e.pruneUntrustedProposals.proposals
          disputeTracker := e.pruneUntrustedProposals.disputeTracker } := by
  unfold pruneUntrustedProposals pruneUntrusted
  rw [purgePendingTrust_eq, foldl_dropNode, purgePendingTrust_eq]

theorem disputeTracker_pruneUntrustedProposals (h : e.disputeTracker = ∅)
    : e.pruneUntrustedProposals.disputeTracker = ∅ := by
  unfold pruneUntrustedProposals pruneUntrusted
  rw [purgePendingTrust_eq, foldl_dropNode, purgePendingTrust_eq, h]
  rw [foldl_unVote_empty, foldl_unVote_empty, foldl_unVote_empty]

theorem trusted_of_mem_pruneUntrustedProposals (h : n ∈ e.pruneUntrustedProposals.proposals)
    : n ∈ e.pruneUntrustedProposals.trusted := by
  have hpruned : n ∈ e.purgePendingTrust.pruneUntrusted.proposals :=
    (mem_proposals_foldl_dropNode.mp h).1
  obtain ⟨hmem, hnot⟩ := mem_proposals_foldl_dropNode.mp hpruned
  have htrusted : n ∈ e.purgePendingTrust.trusted := by
    by_contra huntrusted
    apply hnot
    exact mem_filter.mpr ⟨mem_keys.mp hmem, by simpa using huntrusted⟩
  rw [pruneUntrustedProposals_eq]
  rw [purgePendingTrust_eq] at htrusted
  exact htrusted

end Drop

section Seed

theorem Rewired.setVote : Rewired e (e.setVote t n yes) := by
  constructor <;> rfl

theorem lookup_setVote (h : e.disputeTracker.lookup t = some d)
    : (e.setVote t n yes).disputeTracker.lookup t = some (updateVoteCount d n yes).1 := by
  show (e.disputeTracker.setVote t n yes).1.lookup t = _
  unfold DisputeTracker.setVote
  rw [h]
  apply lookup_insert

theorem lookup_setVote_ne (h : t' ≠ t)
    : (e.setVote t n yes).disputeTracker.lookup t' = e.disputeTracker.lookup t' := by
  show (e.disputeTracker.setVote t n yes).1.lookup t' = _
  unfold DisputeTracker.setVote
  split
  . rfl
  . exact lookup_insert_ne h

variable [Sha512Half]

theorem Rewired.updateDisputes : Rewired e (e.updateDisputes n s) := by
  constructor <;> rfl

theorem Rewired.seedVote
    : Rewired e' (e.seedVote t e' entry) := by
  unfold Engine.seedVote
  split
  . exact .refl e'
  . exact .setVote

theorem Rewired.seedDisputeVotes : Rewired e (e.seedDisputeVotes t) :=
  .foldl (fun _ _ => .seedVote) _ _

theorem lookup_foldl_seedVote_ne {l : List Held} (h : t' ≠ t)
    : (l.foldl (e.seedVote t) e').disputeTracker.lookup t' = e'.disputeTracker.lookup t' := by
  induction l generalizing e' with
  | nil => rfl
  | cons entry l ih =>
    rw [foldl_cons, ih]
    unfold seedVote
    split
    . rfl
    . exact lookup_setVote_ne h

theorem lookup_foldl_seedVote {l : List Held} (hl : l.NodupKeys)
    (h : e'.disputeTracker.lookup t = some d)
    : ∃ d', (l.foldl (e.seedVote t) e').disputeTracker.lookup t = some d'
        ∧ (d.Counted → d'.Counted) ∧ d'.tx = d.tx
        ∧ ∀ n, d'.votes.lookup n
            = (((l.dlookup n).bind (e.positionOf n)).map fun s => s.contains t).or
                (d.votes.lookup n) := by
  induction l generalizing e' d with
  | nil => exact ⟨d, h, id, rfl, fun n => rfl⟩
  | cons entry l ih =>
    obtain ⟨m, p⟩ := entry
    have hnodup := nodupKeys_cons.mp hl
    have hm : l.dlookup m = none := dlookup_eq_none.mpr hnodup.1
    rw [foldl_cons]
    unfold seedVote
    cases hp : e.positionOf m p with
    | none =>
      obtain ⟨d', hd', hcounted, htx, hvotes⟩ := ih hnodup.2 h
      refine ⟨d', hd', hcounted, htx, ?_⟩
      intro n
      rw [hvotes]
      by_cases hn : n = m
      . subst hn
        rw [hm, dlookup_cons_eq]
        simp [hp]
      . rw [dlookup_cons_ne _ _ hn]
    | some s =>
      obtain ⟨d', hd', hcounted, htx, hvotes⟩ := ih hnodup.2 (lookup_setVote h)
      refine ⟨d', hd', fun hd => hcounted hd.updateVoteCount, ?_, ?_⟩
      . rw [htx, DisputedTx.tx_updateVoteCount]
      intro n
      rw [hvotes, DisputedTx.lookup_votes_updateVoteCount]
      by_cases hn : n = m
      . subst hn
        rw [hm, dlookup_cons_eq, if_pos rfl]
        simp [hp]
      . rw [dlookup_cons_ne _ _ hn, if_neg hn]

theorem lookup_seedDisputeVotes (h : e.disputeTracker.lookup t = some d)
    : ∃ d', (e.seedDisputeVotes t).disputeTracker.lookup t = some d'
        ∧ (d.Counted → d'.Counted) ∧ d'.tx = d.tx
        ∧ ∀ n, d'.votes.lookup n
            = ((e.standing n).map fun s => s.contains t).or (d.votes.lookup n) :=
  lookup_foldl_seedVote e.proposals.nodupKeys h

end Seed

section Create

variable [Sha512Half]

structure Seeded (e : Engine) (t : TxID) (d : DisputedTx) : Prop where
  counted : d.Counted
  tx : computeTxID d.tx = t
  votes : ∀ n, d.votes.lookup n = (e.standing n).map fun s => s.contains t

structure Extends (e e' : Engine) : Prop where
  rewired : Rewired e e'
  old : ∀ t d, e.disputeTracker.lookup t = some d → e'.disputeTracker.lookup t = some d
  new : ∀ t d, e.disputeTracker.lookup t = none → e'.disputeTracker.lookup t = some d →
    e.Seeded t d

theorem Extends.refl (e : Engine) : Extends e e where
  rewired := .refl e
  old := fun _ _ h => h
  new := fun t d hnone hsome => by
    rw [hnone] at hsome
    cases hsome

theorem Seeded.of_rewired (h : Rewired e e') (hseeded : e'.Seeded t d) : e.Seeded t d where
  counted := hseeded.counted
  tx := hseeded.tx
  votes := by
    rw [← h.standing]
    exact hseeded.votes

theorem Extends.trans (h : Extends e e') (h' : Extends e' e'') : Extends e e'' where
  rewired := h.rewired.trans h'.rewired
  old := fun t d hd => h'.old t d (h.old t d hd)
  new := by
    intro t d hnone hsome
    cases hd : e'.disputeTracker.lookup t with
    | none => exact (h'.new t d hd hsome).of_rewired h.rewired
    | some d' =>
      have heq := h'.old t d' hd
      rw [hsome] at heq
      cases heq
      exact h.new t d hnone hd

theorem Extends.mem (h : Extends e e') (ht : t ∈ e.disputeTracker) : t ∈ e'.disputeTracker := by
  rw [← lookup_isSome] at ht ⊢
  obtain ⟨d, hd⟩ := Option.isSome_iff_exists.mp ht
  rw [h.old t d hd]
  rfl

theorem Extends.foldl {α : Type} {f : Engine → α → Engine} (hf : ∀ e a, Extends e (f e a))
    (l : List α) (e : Engine)
    : Extends e (l.foldl f e) := by
  induction l generalizing e with
  | nil => exact .refl e
  | cons a l ih => exact (hf e a).trans (ih (f e a))

theorem lookup_createDispute (ourVote : Bool) (h : computeTxID tx ∉ e.disputeTracker)
    : ∃ d, (e.createDispute tx ourVote).disputeTracker = e.disputeTracker.insert (computeTxID tx) d
        ∧ d.Counted ∧ d.tx = tx ∧ d.votes = ∅ := by
  unfold createDispute DisputeTracker.createDispute
  rw [lookup_eq_none.mpr h]
  exact ⟨_, rfl, ⟨rfl, rfl⟩, rfl, rfl⟩

theorem Extends.seedDispute (h : computeTxID tx ∉ e.disputeTracker)
    : Extends e ((e.createDispute tx ourVote).seedDisputeVotes (computeTxID tx))
      ∧ computeTxID tx
          ∈ ((e.createDispute tx ourVote).seedDisputeVotes (computeTxID tx)).disputeTracker := by
  obtain ⟨d, hinsert, hcounted, htx, hvotes⟩ := lookup_createDispute ourVote h
  have hcreate : Rewired e (e.createDispute tx ourVote) := by
    constructor <;> rfl
  have hlookup : (e.createDispute tx ourVote).disputeTracker.lookup (computeTxID tx) = some d := by
    rw [hinsert]
    apply lookup_insert
  obtain ⟨d', hd', hcounted', htx', hvotes'⟩ := lookup_seedDisputeVotes hlookup
  have hother : ∀ t', t' ≠ computeTxID tx →
      ((e.createDispute tx ourVote).seedDisputeVotes (computeTxID tx)).disputeTracker.lookup t'
        = e.disputeTracker.lookup t' := by
    intro t' ht'
    refine (lookup_foldl_seedVote_ne ht').trans ?_
    rw [hinsert]
    exact lookup_insert_ne ht'
  refine ⟨⟨hcreate.trans .seedDisputeVotes, ?_, ?_⟩, ?_⟩
  . intro t₀ d₀ hd₀
    rw [hother, hd₀]
    rintro rfl
    apply h
    rw [← lookup_isSome, hd₀]
    rfl
  . intro t₀ d₀ hnone hsome
    by_cases ht₀ : t₀ = computeTxID tx
    . subst ht₀
      rw [hd'] at hsome
      cases hsome
      refine ⟨hcounted' hcounted, by rw [htx', htx], ?_⟩
      intro n
      rw [hvotes', hvotes, hcreate.standing]
      simp
    rw [hother t₀ ht₀, hnone] at hsome
    cases hsome
  rw [← lookup_isSome, hd']
  rfl

theorem Extends.disputeTx : Extends e (disputeTx s ourVote e tx) := by
  unfold Engine.disputeTx
  split
  . exact .refl e
  split
  . exact .refl e
  next hnot => exact (Extends.seedDispute hnot).1

theorem mem_disputeTx (h : computeTxID tx ∉ s.txIDs)
    : computeTxID tx ∈ (disputeTx s ourVote e tx).disputeTracker := by
  unfold disputeTx
  rw [if_neg h]
  split
  next hmem => exact hmem
  next hnot => exact (Extends.seedDispute hnot).2

theorem mem_foldl_disputeTx {txs : List Blob} (htx : tx ∈ txs) (h : computeTxID tx ∉ s.txIDs)
    : computeTxID tx ∈ (txs.foldl (disputeTx s ourVote) e).disputeTracker := by
  induction txs generalizing e with
  | nil => cases htx
  | cons tx' txs ih =>
    rw [foldl_cons]
    cases htx with
    | head =>
      apply (Extends.foldl (fun _ _ => Extends.disputeTx) txs _).mem
      exact mem_disputeTx h
    | tail _ htx => exact ih htx

theorem Extends.compare {id : TxSetID}
    : Extends e { e with comparesTxSets := id :: e.comparesTxSets } where
  rewired := by constructor <;> rfl
  old := fun _ _ h => h
  new := fun t d hnone hsome => by
    rw [hnone] at hsome
    cases hsome

theorem Extends.createDisputesAgainst : Extends e (e.createDisputesAgainst s) := by
  unfold Engine.createDisputesAgainst
  split
  . exact .refl e
  split
  . exact .refl e
  split
  . exact .compare
  refine .trans ?_ (.foldl (fun _ _ => .disputeTx) _ _)
  exact .trans .compare (.foldl (fun _ _ => .disputeTx) _ _)

theorem comparesTxSets_foldl_seedVote {l : List Held}
    : (l.foldl (e.seedVote t) e').comparesTxSets = e'.comparesTxSets := by
  induction l generalizing e' with
  | nil => rfl
  | cons entry l ih =>
    rw [foldl_cons, ih]
    unfold seedVote
    split
    . rfl
    . rfl

theorem comparesTxSets_foldl_disputeTx {txs : List Blob}
    : (txs.foldl (disputeTx s ourVote) e).comparesTxSets = e.comparesTxSets := by
  induction txs generalizing e with
  | nil => rfl
  | cons tx txs ih =>
    rw [foldl_cons, ih]
    unfold disputeTx
    split
    . rfl
    split
    . rfl
    . exact comparesTxSets_foldl_seedVote

theorem mem_comparesTxSets_createDisputesAgainst {id : TxSetID}
    (h : id ∈ (e.createDisputesAgainst s).comparesTxSets)
    : id ∈ e.comparesTxSets ∨ id = s.id := by
  unfold createDisputesAgainst at h
  split at h
  . exact .inl h
  split at h
  . exact .inl h
  split at h
  . exact (mem_cons.mp h).symm
  rw [comparesTxSets_foldl_disputeTx, comparesTxSets_foldl_disputeTx] at h
  exact (mem_cons.mp h).symm

theorem mem_createDisputesAgainst (hours : e.ourTxSet = some ours) (hid : s.id ≠ ours.id)
    (hcompares : s.id ∉ e.comparesTxSets) (h : ours.contains t ≠ s.contains t)
    : t ∈ (e.createDisputesAgainst s).disputeTracker := by
  unfold createDisputesAgainst
  rw [hours]
  dsimp only
  rw [if_neg hcompares, if_neg hid]
  by_cases ht : t ∈ ours.txIDs
  . have hs : t ∉ s.txIDs := by
      intro hs
      simp [TxSet.contains, ht, hs] at h
    obtain ⟨tx, htx, rfl⟩ := mem_map.mp ht
    apply (Extends.foldl (fun _ _ => Extends.disputeTx) _ _).mem
    exact mem_foldl_disputeTx htx hs
  have hs : t ∈ s.txIDs := by
    by_contra hs
    simp [TxSet.contains, ht, hs] at h
  obtain ⟨tx, htx, rfl⟩ := mem_map.mp hs
  exact mem_foldl_disputeTx htx ht

end Create

end Engine

end Disputes
