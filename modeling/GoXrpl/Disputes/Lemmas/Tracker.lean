import GoXrpl.Accounting.Sum
import GoXrpl.Disputes.Impl.Tracker

open AList

namespace Disputes

open Validations (NodeID)
open Accounting (countVotes countVotes_insert countVotes_change countVotes_erase)

variable {d : DisputedTx}

namespace DisputedTx

structure Counted (d : DisputedTx) : Prop where
  yays : d.yays = countVotes true d.votes
  nays : d.nays = countVotes false d.votes

theorem Counted.updateVoteCount (h : d.Counted) : (updateVoteCount d peerID yes).1.Counted := by
  have hyays := h.yays
  have hnays := h.nays
  unfold Disputes.updateVoteCount
  split
  next hnone =>
    have htrue := countVotes_insert (v := yes) true hnone
    have hfalse := countVotes_insert (v := yes) false hnone
    cases yes with
    | true => constructor <;> simp at htrue hfalse ⊢ <;> omega
    | false => constructor <;> simp at htrue hfalse ⊢ <;> omega
  rename_i prev hsome
  have htrue := countVotes_change (v := yes) true hsome
  have hfalse := countVotes_change (v := yes) false hsome
  by_cases heq : prev = yes
  . rw [if_pos heq]
    exact h
  rw [if_neg heq]
  cases yes with
  | true =>
    have hprev : prev = false := by simpa using heq
    subst hprev
    constructor <;> simp at htrue hfalse ⊢ <;> omega
  | false =>
    have hprev : prev = true := by simpa using heq
    subst hprev
    constructor <;> simp at htrue hfalse ⊢ <;> omega

theorem Counted.unVote (h : d.Counted) : (d.unVote peerID).Counted := by
  have hyays := h.yays
  have hnays := h.nays
  unfold DisputedTx.unVote
  split
  next => exact h
  all_goals
    rename_i hsome
    have htrue := countVotes_erase true hsome
    have hfalse := countVotes_erase false hsome
    constructor <;> simp at htrue hfalse ⊢ <;> omega

@[simp]
theorem lookup_votes_updateVoteCount
    : (updateVoteCount d peerID yes).1.votes.lookup n
        = if n = peerID then some yes else d.votes.lookup n := by
  unfold updateVoteCount
  by_cases hn : n = peerID
  . subst hn
    rw [if_pos rfl]
    split
    next => cases yes <;> simp
    rename_i prev hsome
    by_cases heq : prev = yes
    . rw [if_pos heq, hsome, heq]
    rw [if_neg heq]
    cases yes <;> simp
  rw [if_neg hn]
  split
  next => cases yes <;> simp [lookup_insert_ne hn]
  rename_i prev hsome
  by_cases heq : prev = yes
  . rw [if_pos heq]
  rw [if_neg heq]
  cases yes <;> simp [lookup_insert_ne hn]

@[simp]
theorem tx_updateVoteCount : (updateVoteCount d peerID yes).1.tx = d.tx := by
  unfold updateVoteCount
  split
  . split <;> rfl
  split
  . rfl
  . split <;> rfl

@[simp]
theorem lookup_votes_unVote
    : (d.unVote peerID).votes.lookup n = if n = peerID then none else d.votes.lookup n := by
  unfold unVote
  by_cases hn : n = peerID
  . subst hn
    rw [if_pos rfl]
    split
    next hnone => exact hnone
    next => apply lookup_erase
    next => apply lookup_erase
  rw [if_neg hn]
  split
  next => rfl
  next => exact lookup_erase_ne hn
  next => exact lookup_erase_ne hn

@[simp]
theorem tx_unVote : (d.unVote peerID).tx = d.tx := by
  unfold unVote
  split <;> rfl

theorem advance_eq (d : DisputedTx) (parms : VoteParms)
    : ∃ state rounds,
        (d.advance parms).1 = { d with avalancheState := state, avalancheCounter := rounds } := by
  unfold advance
  dsimp only
  split
  . exact ⟨_, _, rfl⟩
  . exact ⟨_, _, rfl⟩

theorem vote_eq (d : DisputedTx) (newVote : Bool)
    : ∃ vote stable,
        (d.vote newVote).1 = { d with ourVote := vote, currentVoteCounter := stable } := by
  unfold vote
  split
  . exact ⟨_, _, rfl⟩
  . exact ⟨_, _, rfl⟩

theorem updateOurVote_eq (d : DisputedTx) (parms : VoteParms)
    : ∃ vote state rounds stable, (d.updateOurVote parms).1
        = { d with
          ourVote := vote
          avalancheState := state
          avalancheCounter := rounds
          currentVoteCounter := stable } := by
  unfold updateOurVote
  split
  . exact ⟨_, _, _, _, rfl⟩
  split
  . exact ⟨_, _, _, _, rfl⟩
  obtain ⟨vote, stable, hvote⟩ := vote_eq (d.advance parms).1
    ((d.advance parms).1.newVote parms.proposing (d.advance parms).2)
  obtain ⟨state, rounds, hadvance⟩ := advance_eq d parms
  rw [hvote, hadvance]
  exact ⟨_, _, _, _, rfl⟩

theorem Counted.updateOurVote (h : d.Counted) (parms : VoteParms)
    : (d.updateOurVote parms).1.Counted := by
  obtain ⟨vote, state, rounds, stable, heq⟩ := updateOurVote_eq d parms
  rw [heq]
  exact ⟨h.yays, h.nays⟩

@[simp]
theorem votes_updateOurVote (parms : VoteParms) : (d.updateOurVote parms).1.votes = d.votes := by
  obtain ⟨vote, state, rounds, stable, heq⟩ := updateOurVote_eq d parms
  rw [heq]

@[simp]
theorem tx_updateOurVote (parms : VoteParms) : (d.updateOurVote parms).1.tx = d.tx := by
  obtain ⟨vote, state, rounds, stable, heq⟩ := updateOurVote_eq d parms
  rw [heq]

end DisputedTx

namespace DisputeTracker

variable {dt : DisputeTracker}

@[simp]
theorem lookup_unVote
    : (dt.unVote peerID).lookup txID = (dt.lookup txID).map fun d => d.unVote peerID :=
  Assoc.lookup_mapValues _ _ _

@[simp]
theorem lookup_updateDisputes [Sha512Half]
    : (dt.updateDisputes peerID s).1.lookup txID
        = (dt.lookup txID).map fun d => (updateVoteCount d peerID (s.contains txID)).1 :=
  Assoc.lookup_mapValues _ _ _

@[simp]
theorem lookup_updateOurVote (parms : VoteParms)
    : (dt.updateOurVote parms).1.lookup txID
        = (dt.lookup txID).map fun d => (d.updateOurVote parms).1 :=
  Assoc.lookup_mapValues _ _ _

theorem mem_of_mem_updateOurVote (h : txID ∈ (dt.updateOurVote parms).2) : txID ∈ dt := by
  unfold updateOurVote at h
  rw [List.mem_map] at h
  obtain ⟨e, he, rfl⟩ := h
  apply mem_keys.mp
  exact List.mem_keys_of_mem (List.mem_of_mem_filter he)

end DisputeTracker

end Disputes
