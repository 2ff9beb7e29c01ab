import Mathlib.Data.List.Dedup
import GoXrpl.LedgerTrie.Lemmas.Span

/-!
This module contains the preferred ledger of a multiset of ledgers: a walk that goes from ledger to
ledger, one sequence at a time.
-/

namespace LedgerTrie

def supportBelow (M : List Ledger) (seq : Nat) : Nat := M.countP (fun x => x.seq < seq)

def childIDs (M : List Ledger) (p : SpanTip) : List LedgerID :=
  ((M.filter (fun x => p.seq < x.seq && x.descends p)).map (fun x => x.ancestor (p.seq + 1))).dedup

def idOutranks (M : List Ledger) (seq : Nat) (a b : LedgerID) : Bool :=
  let supportA := branchSupportOf M { seq, id := a }
  let supportB := branchSupportOf M { seq, id := b }
  if supportA ≠ supportB then supportA > supportB else ledgerIDGreater a b

def margin (M : List Ledger) (seq : Nat) (children : List LedgerID) (best : LedgerID) : Nat :=
  match Search.greatest (idOutranks M seq) (children.filter (· ≠ best)) with
  | none => branchSupportOf M { seq, id := best }
  | some second =>
    branchSupportOf M { seq, id := best } - branchSupportOf M { seq, id := second } +
      if ledgerIDGreater best second then 1 else 0

def naiveStep (M : List Ledger) (largestIssued : Nat) (p : SpanTip) : Option SpanTip :=
  match Search.greatest (idOutranks M (p.seq + 1)) (childIDs M p) with
  | none => none
  | some best =>
    let uncommitted := supportBelow M (max (p.seq + 1) largestIssued)
    if margin M (p.seq + 1) (childIDs M p) best > uncommitted ∨ uncommitted = 0 then
      some { seq := p.seq + 1, id := best }
    else
      none

def naiveWalk (M : List Ledger) (largestIssued : Nat) : Nat → SpanTip → SpanTip
  | 0, p => p
  | fuel + 1, p =>
    match naiveStep M largestIssued p with
    | none => p
    | some p => naiveWalk M largestIssued fuel p

def highestSeq (M : List Ledger) : Nat := (M.map Ledger.seq).foldr max 0

def naivePreferred (M : List Ledger) (genesis : Ledger) (largestIssued : Nat) : SpanTip :=
  naiveWalk M largestIssued (highestSeq M) genesis.tip

theorem mem_childIDs {id : LedgerID}
    : id ∈ childIDs M p ↔
        ∃ x ∈ M, p.seq < x.seq ∧ x.descends p ∧ x.ancestor (p.seq + 1) = id := by
  simp [childIDs, and_assoc]

theorem ledgerIDGreater_asymm (a b : LedgerID) (h : ledgerIDGreater a b)
    : ¬ledgerIDGreater b a := by
  simp only [ledgerIDGreater, decide_eq_true_eq] at *
  exact List.lt_asymm h

theorem ledgerIDGreater_trans (hab : ledgerIDGreater a b) (hbc : ledgerIDGreater b c)
    : ledgerIDGreater a c := by
  simp only [ledgerIDGreater, decide_eq_true_eq] at *
  exact List.lt_trans hbc hab

theorem ledgerIDGreater_total (hne : a ≠ b) : ledgerIDGreater a b ∨ ledgerIDGreater b a := by
  simp only [ledgerIDGreater, decide_eq_true_eq]
  have hlist : a.toList ≠ b.toList := fun heq => hne (Vector.toList_inj.mp heq)
  by_cases hba : b.toList < a.toList
  . exact .inl hba
  by_cases hab : a.toList < b.toList
  . exact .inr hab
  . exact absurd (List.le_antisymm hba hab) hlist

theorem idOutranks_asymm (M : List Ledger) (seq : Nat) (a b : LedgerID) (h : idOutranks M seq a b)
    : ¬idOutranks M seq b a := by
  unfold idOutranks at *
  dsimp only at *
  split at h
  . next hne =>
    rw [if_pos (Ne.symm hne)]
    simp only [decide_eq_true_eq] at *
    omega
  . next heq =>
    rw [if_neg (fun hne => heq (Ne.symm hne))]
    exact ledgerIDGreater_asymm a b h

theorem naiveStep_perm {M M' : List Ledger} (hperm : M.Perm M') (largestIssued : Nat) (p : SpanTip)
    : naiveStep M largestIssued p = naiveStep M' largestIssued p := by
  have hbranch : ∀ q, branchSupportOf M q = branchSupportOf M' q := fun q => hperm.countP_eq _
  have hbelow : ∀ s, supportBelow M s = supportBelow M' s := fun s => hperm.countP_eq _
  have houtranks : ∀ s, idOutranks M s = idOutranks M' s := by
    intro s
    funext a b
    simp only [idOutranks, hbranch]
  have hmem : ∀ id, id ∈ childIDs M p ↔ id ∈ childIDs M' p := by
    intro id
    simp only [mem_childIDs, hperm.mem_iff]
  have hbest := Search.greatest_congr (idOutranks_asymm M' (p.seq + 1)) hmem
  have hmargin : ∀ best, margin M (p.seq + 1) (childIDs M p) best =
      margin M' (p.seq + 1) (childIDs M' p) best := by
    intro best
    have hothers : ∀ x, x ∈ (childIDs M p).filter (· ≠ best) ↔
        x ∈ (childIDs M' p).filter (· ≠ best) := by
      intro x
      simp only [List.mem_filter, hmem]
    unfold margin
    rw [houtranks, Search.greatest_congr (idOutranks_asymm M' (p.seq + 1)) hothers]
    simp only [hbranch]
  simp only [naiveStep, houtranks, hbest, hmargin, hbelow]

theorem naivePreferred_perm (hperm : M.Perm M') (genesis : Ledger) (largestIssued : Nat)
    : naivePreferred M genesis largestIssued = naivePreferred M' genesis largestIssued := by
  have hhighest : highestSeq M = highestSeq M' := by
    apply (hperm.map Ledger.seq).foldr_eq
  have hwalk : ∀ fuel p, naiveWalk M largestIssued fuel p = naiveWalk M' largestIssued fuel p := by
    intro fuel
    induction fuel with
    | zero =>
      intro p
      rfl
    | succ fuel ih =>
      intro p
      simp only [naiveWalk, naiveStep_perm hperm, ih]
  unfold naivePreferred
  rw [hhighest, hwalk]

end LedgerTrie
