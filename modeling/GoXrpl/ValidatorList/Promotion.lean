import GoXrpl.ValidatorList.Impl.PublisherState

/-!
This module contains the condition under which a Tick leaves no list behind that is due.
-/

open List

namespace ValidatorList

open Transition (Occurs)

/--
A list that is followed directly by a later one is followed by later ones only.
-/
def Settles : List PendingList → Prop
  | entry :: next :: rest =>
    (entry.effective < next.effective → ∀ later ∈ rest, entry.effective < later.effective)
      ∧ Settles (next :: rest)
  | _ => True

variable {sequence : UInt32} {sequences : List UInt32} {l : List PendingList}

theorem normalize_sublist : ∀ l, (normalize sequence l).Sublist l
  | [] => List.Sublist.refl _
  | entry :: rest => by
    unfold normalize
    split
    . exact (normalize_sublist rest).cons _
    . exact (normalize_sublist rest).cons_cons _

theorem normalize_increasing (h : Settles l)
    : (normalize sequence l).Pairwise (·.effective < ·.effective) := by
  induction l with
  | nil => exact List.Pairwise.nil
  | cons entry rest ih =>
    have hrest : Settles rest := by
      cases rest with
      | nil => trivial
      | cons => exact h.2
    unfold normalize
    split
    . exact ih hrest
    . next hkept =>
      rw [pairwise_cons]
      refine ⟨fun later hlater => ?_, ih hrest⟩
      have hmem := (normalize_sublist rest).subset hlater
      cases rest with
      | nil => cases hmem
      | cons next rest =>
        have hnext : entry.effective < next.effective := by
          by_contra hnot
          exact hkept (.inr (by simpa using hnot))
        rcases mem_cons.mp hmem with rfl | hmem
        . exact hnext
        . exact h.1 hnext later hmem

theorem future_of_not_ready (h : l.Pairwise (·.effective < ·.effective))
    (hmem : entry ∈ l) (hdropped : entry ∉ l.takeWhile (·.effective ≤ now))
    : now < entry.effective := by
  induction l with
  | nil => cases hmem
  | cons first rest ih =>
    rw [pairwise_cons] at h
    by_cases hdue : first.effective ≤ now
    . rw [takeWhile_cons_of_pos (by simpa using hdue), mem_cons, not_or] at hdropped
      exact ih h.2 ((mem_cons.mp hmem).resolve_left hdropped.1) hdropped.2
    rcases mem_cons.mp hmem with rfl | hmem
    . omega
    have hlater := h.1 entry hmem
    omega

def Ascending (l : List PendingList) : Prop := l.Pairwise (·.sequence < ·.sequence)

structure OnTime (now : Int) (s : PublisherState) : Prop where
  future : ∀ entry ∈ s.remaining, now < entry.effective
  ascending : Ascending s.remaining
  increasing : s.remaining.Pairwise (·.effective < ·.effective)

namespace PublisherState

variable (s : PublisherState)

theorem remaining_recordMaxSequence : (s.recordMaxSequence sequence).remaining = s.remaining := by
  unfold recordMaxSequence
  split <;> rfl

theorem normalizeRemaining_sublist : s.normalizeRemaining.remaining.Sublist s.remaining :=
  normalize_sublist _

theorem delete_sublist : (s.delete sequences).remaining.Sublist s.remaining :=
  filter_sublist

theorem promotePendingSequence_sublist
    : (s.promotePendingSequence sequence).remaining.Sublist s.remaining := by
  unfold promotePendingSequence
  split
  . exact List.Sublist.refl _
  split
  . exact List.Sublist.refl _
  apply (normalizeRemaining_sublist _).trans
  rw [remaining_recordMaxSequence]
  exact delete_sublist _

theorem promoteRemaining_sublist (now : Int)
    : (s.promoteRemaining now).2.remaining.Sublist s.normalizeRemaining.remaining := by
  unfold promoteRemaining
  dsimp only
  split
  . exact List.Sublist.refl _
  apply (normalizeRemaining_sublist _).trans
  exact (delete_sublist _).trans (promotePendingSequence_sublist _)

variable {s}

theorem set_ascending (h : Ascending s.remaining) (list : PendingList)
    : Ascending (s.set list).remaining := by
  unfold Ascending set
  rw [pairwise_append, pairwise_cons]
  refine ⟨h.filter _, ⟨by simp, h.filter _⟩, fun entry hentry later hlater => ?_⟩
  have hlow : entry.sequence < list.sequence := by simpa using (mem_filter.mp hentry).2
  rcases mem_cons.mp hlater with rfl | hlater
  . exact hlow
  have hhigh : list.sequence < later.sequence := by simpa using (mem_filter.mp hlater).2
  exact UInt32.lt_trans hlow hhigh

theorem commit_ascending (h : Ascending s.remaining) (list : PendingList) (now : Int)
    : Ascending (s.commit list now).2.remaining := by
  have hnormal : Ascending s.normalizeRemaining.remaining := h.sublist (normalizeRemaining_sublist s)
  unfold commit
  dsimp only
  split
  . exact hnormal
  split
  . exact hnormal
  split
  . apply List.Pairwise.sublist (normalizeRemaining_sublist _)
    split
    . exact hnormal.sublist (promotePendingSequence_sublist _)
    rw [remaining_recordMaxSequence]
    exact hnormal
  apply List.Pairwise.sublist (normalizeRemaining_sublist _)
  unfold applyPending
  dsimp only
  split
  . exact hnormal
  rw [remaining_recordMaxSequence]
  exact set_ascending hnormal list

theorem promoteRemaining_onTime (hascending : Ascending s.remaining) (hsettles : Settles s.remaining)
    (now : Int)
    : OnTime now (s.promoteRemaining now).2 := by
  have hsublist := promoteRemaining_sublist s now
  have hincreasing : s.normalizeRemaining.remaining.Pairwise (·.effective < ·.effective) :=
    normalize_increasing hsettles
  refine ⟨fun entry hentry => ?_, hascending.sublist (hsublist.trans (normalizeRemaining_sublist s)),
    hincreasing.sublist hsublist⟩
  -- What is left was not in the ready prefix, which is deleted.
  have hdropped : entry ∉ s.normalizeRemaining.remaining.takeWhile (·.effective ≤ now) := by
    intro hready
    unfold promoteRemaining at hentry
    dsimp only at hentry
    split at hentry
    . next hnone =>
      rw [getLast?_eq_none_iff] at hnone
      rw [hnone] at hready
      cases hready
    have hkept := (normalizeRemaining_sublist _).subset hentry
    have hnot := (mem_filter.mp hkept).2
    exact (of_decide_eq_true hnot) (mem_map_of_mem hready)
  exact future_of_not_ready hincreasing (hsublist.subset hentry) hdropped

end PublisherState

section

variable [DecidableEq Publisher]

namespace Aggregator

theorem update_ascending (h : ∀ publisher, Ascending (a publisher).remaining)
    {s : PublisherState} (hs : Ascending s.remaining) (publisher : Publisher)
    : Ascending (Function.update a changed s publisher).remaining := by
  by_cases heq : publisher = changed
  . rw [heq, Function.update_self]
    exact hs
  rw [Function.update_of_ne heq]
  exact h publisher

theorem step_ascending (a : Aggregator Publisher) (event : Event Publisher)
    (h : ∀ publisher, Ascending (a publisher).remaining) (publisher : Publisher)
    : Ascending (a.step event publisher).remaining := by
  cases event with
  | arrive sender list now =>
    exact update_ascending h (PublisherState.commit_ascending (h sender) list now) publisher
  | revoke revoked => exact update_ascending h (s := (a revoked).revoke) List.Pairwise.nil publisher
  | tick now =>
    apply List.Pairwise.sublist _ (h publisher)
    apply (PublisherState.promoteRemaining_sublist _ now).trans
    apply PublisherState.normalizeRemaining_sublist

theorem run_ascending (events : List (Event Publisher)) (publisher : Publisher)
    : Ascending (run events publisher).remaining := by
  revert publisher
  apply Transition.run_invariant step (fun a => ∀ publisher, Ascending (a publisher).remaining)
    (fun _ => True)
  . exact fun _ => List.Pairwise.nil
  . exact fun a event _ => step_ascending a event
  . exact fun _ _ => trivial

/--
In a run whose Ticks find settled queues, every Tick leaves every publisher on time.
-/
theorem onTime_of_run {events : List (Event Publisher)}
    (hsettles : ∀ before now, Occurs before (.tick now) events →
      ∀ publisher, Settles (run before publisher).remaining)
    : ∀ before now, Occurs before (.tick now) events →
      ∀ publisher, OnTime now (run (before ++ [.tick now]) publisher) := by
  intro before now hoccurs publisher
  unfold run
  rw [Transition.run_concat]
  exact PublisherState.promoteRemaining_onTime (run_ascending before publisher)
    (hsettles before now hoccurs publisher) now

namespace Sample

def arrive (sequence : UInt32) (effective : Int) : Event Unit := .arrive () ⟨sequence, effective, 9⟩ 0

def stacked : List (Event Unit) := [arrive 10 6, arrive 12 8, arrive 11 7]

theorem onTime_of_stacked : OnTime 6 (run (stacked ++ [.tick 6]) ()) := by
  have hsettles : ∀ before now, Occurs before (.tick now) (stacked ++ [.tick 6]) →
      ∀ publisher, Settles (run before publisher).remaining := by
    rintro before now ⟨rest, hrest⟩ _
    have hbefore : before = stacked := by
      rcases before with _ | ⟨_, _ | ⟨_, _ | ⟨_, _ | ⟨_, _⟩⟩⟩⟩ <;> simp_all [stacked, arrive]
    have hremaining : (run stacked ()).remaining = [⟨10, 6, 9⟩, ⟨11, 7, 9⟩, ⟨12, 8, 9⟩] := by
      decide +kernel
    rw [hbefore, hremaining]
    simp [Settles]
  exact onTime_of_run hsettles stacked 6 prefix_rfl ()

-- The pass after 13 drops 12 and the one of the Tick drops 11; 10 still hides 13, which is due.
theorem hidden_list
    : ¬ OnTime 5 (run [arrive 10 6, arrive 11 7, arrive 12 8, arrive 13 5, .tick 5] ()) := by
  intro h
  exact absurd (h.future ⟨13, 5, 9⟩ (by decide +kernel)) (by decide)

end Sample

end Aggregator

end

end ValidatorList
