import Mathlib.Data.List.AList

/-!
This module contains counters kept in a map: how often each value has been seen, the largest count
and what the values with another count add up to.
-/

open List AList

namespace Tally

variable {α : Type}

abbrev Counts (α : Type) := AList fun _ : α => Nat

namespace Counts

def add [DecidableEq α] (counts : Counts α) (a : α) : Counts α :=
  counts.insert a ((counts.lookup a).getD 0 + 1)

def best (counts : Counts α) : Nat :=
  counts.entries.foldl (fun best c => if best < c.2 then c.2 else best) 0

def others (counts : Counts α) (best : Nat) : Nat :=
  counts.entries.foldl (fun others c => if c.2 ≠ best then others + c.2 else others) 0

def total (entries : List (Sigma fun _ : α => Nat)) : Nat :=
  (entries.map fun c => c.2).foldr (· + ·) 0

theorem best_foldl_spec (entries : List (Sigma fun _ : α => Nat)) (n : Nat)
    : n ≤ entries.foldl (fun best c => if best < c.2 then c.2 else best) n
      ∧ (∀ c ∈ entries, c.2 ≤ entries.foldl (fun best c => if best < c.2 then c.2 else best) n)
      ∧ (entries.foldl (fun best c => if best < c.2 then c.2 else best) n = n
        ∨ ∃ c ∈ entries, c.2 = entries.foldl (fun best c => if best < c.2 then c.2 else best) n) := by
  induction entries generalizing n with
  | nil => simp
  | cons c entries ih =>
    obtain ⟨hle, hentries, hattained⟩ := ih (if n < c.2 then c.2 else n)
    have hn : n ≤ if n < c.2 then c.2 else n := by split <;> omega
    have hc : c.2 ≤ if n < c.2 then c.2 else n := by split <;> omega
    rw [foldl_cons]
    refine ⟨Nat.le_trans hn hle, ?_, ?_⟩
    . intro d hd
      rcases mem_cons.mp hd with rfl | hd
      . exact Nat.le_trans hc hle
      . exact hentries d hd
    rcases hattained with heq | ⟨d, hd, heq⟩
    . by_cases hlt : n < c.2
      . rw [if_pos hlt] at heq ⊢
        exact .inr ⟨c, mem_cons_self, heq.symm⟩
      rw [if_neg hlt] at heq ⊢
      exact .inl heq
    . exact .inr ⟨d, mem_cons_of_mem c hd, heq⟩

theorem others_foldl (entries : List (Sigma fun _ : α => Nat)) (n best : Nat)
    : entries.foldl (fun others c => if c.2 ≠ best then others + c.2 else others) n
        + (entries.filter fun c => c.2 = best).length * best
      = n + total entries := by
  induction entries generalizing n with
  | nil => simp [total]
  | cons c entries ih =>
    have hrest := ih (if c.2 ≠ best then n + c.2 else n)
    rw [foldl_cons]
    simp only [total, map_cons, foldr_cons] at hrest ⊢
    by_cases hbest : c.2 = best
    . rw [if_neg (not_not.mpr hbest)] at hrest ⊢
      rw [filter_cons_of_pos (by simpa using hbest), length_cons, Nat.add_mul]
      omega
    rw [if_pos hbest] at hrest ⊢
    rw [filter_cons_of_neg (by simpa using hbest)]
    omega

variable [DecidableEq α]

theorem getD_lookup_add (counts : Counts α) (a b : α)
    : ((counts.add a).lookup b).getD 0 = (counts.lookup b).getD 0 + if a = b then 1 else 0 := by
  unfold add
  by_cases hab : a = b
  . subst hab
    simp
  . rw [lookup_insert_ne (Ne.symm hab), if_neg hab, Nat.add_zero]

theorem getD_lookup_foldl (l : List α) (counts : Counts α) (b : α)
    : ((l.foldl add counts).lookup b).getD 0 = (counts.lookup b).getD 0 + l.countP (· = b) := by
  induction l generalizing counts with
  | nil => rfl
  | cons a l ih =>
    rw [foldl_cons, ih, getD_lookup_add, countP_cons]
    simp only [decide_eq_true_eq]
    omega

theorem total_kerase (entries : List (Sigma fun _ : α => Nat)) (a : α)
    : total entries = (entries.dlookup a).getD 0 + total (entries.kerase a) := by
  induction entries with
  | nil => rfl
  | cons c entries ih =>
    obtain ⟨b, n⟩ := c
    by_cases hab : a = b
    . subst hab
      simp [total]
    rw [dlookup_cons_ne _ _ hab, kerase_cons_ne hab]
    simp only [total, map_cons, foldr_cons] at ih ⊢
    omega

theorem total_add (counts : Counts α) (a : α)
    : total (counts.add a).entries = total counts.entries + 1 := by
  have herase := total_kerase counts.entries a
  unfold add
  rw [AList.entries_insert]
  simp only [total, map_cons, foldr_cons, AList.lookup] at herase ⊢
  omega

theorem total_foldl (l : List α) (counts : Counts α)
    : total (l.foldl add counts).entries = total counts.entries + l.length := by
  induction l generalizing counts with
  | nil => rfl
  | cons a l ih =>
    rw [foldl_cons, ih, total_add, length_cons]
    omega

theorem getD_lookup_le_best (counts : Counts α) (a : α)
    : (counts.lookup a).getD 0 ≤ counts.best := by
  cases hlookup : counts.lookup a with
  | none => exact Nat.zero_le _
  | some n =>
    exact (best_foldl_spec counts.entries 0).right.left ⟨a, n⟩ (mem_lookup_iff.mp hlookup)

theorem best_attained (counts : Counts α) (hpos : 0 < counts.best)
    : ∃ a, counts.lookup a = some counts.best := by
  rcases (best_foldl_spec counts.entries 0).right.right with hzero | ⟨c, hc, heq⟩
  . unfold best at hpos
    omega
  refine ⟨c.1, ?_⟩
  unfold best
  rw [← heq]
  exact mem_lookup_iff.mpr hc

def winners (counts : Counts α) : Nat :=
  (counts.entries.filter fun c => c.2 = counts.best).length

omit [DecidableEq α] in
theorem others_add_winners (counts : Counts α)
    : counts.others counts.best + counts.winners * counts.best = total counts.entries := by
  have h := others_foldl counts.entries 0 counts.best
  rw [Nat.zero_add] at h
  exact h

variable {counts : Counts α}

theorem mem_winners (ha : counts.lookup a = some counts.best)
    : (⟨a, counts.best⟩ : Sigma fun _ : α => Nat)
        ∈ counts.entries.filter fun c => c.2 = counts.best := by
  rw [mem_filter]
  exact ⟨mem_lookup_iff.mp ha, by simp⟩

theorem winners_pos (hpos : 0 < counts.best) : 0 < counts.winners := by
  obtain ⟨a, ha⟩ := counts.best_attained hpos
  exact length_pos_of_mem (mem_winners ha)

theorem eq_of_winners_le_one (hwinners : counts.winners ≤ 1)
    (ha : counts.lookup a = some counts.best) (hb : counts.lookup b = some counts.best)
    : a = b := by
  have ha := mem_winners ha
  have hb := mem_winners hb
  unfold winners at hwinners
  generalize counts.entries.filter (fun c => c.2 = counts.best) = winning at hwinners ha hb
  rcases winning with _ | ⟨c, _ | ⟨d, rest⟩⟩
  . cases ha
  . have hpair := (mem_singleton.mp ha).trans (mem_singleton.mp hb).symm
    exact congrArg Sigma.fst hpair
  . simp at hwinners

theorem winners_le_one
    (hunique : ∀ a b, counts.lookup a = some counts.best → counts.lookup b = some counts.best → a = b)
    : counts.winners ≤ 1 := by
  have hkeys : (counts.entries.filter fun c => c.2 = counts.best).NodupKeys :=
    counts.nodupKeys.sublist filter_sublist
  have hmem (c : Sigma fun _ : α => Nat) (hc : c ∈ counts.entries.filter fun c => c.2 = counts.best)
      : counts.lookup c.1 = some counts.best := by
    rw [mem_filter] at hc
    rw [← of_decide_eq_true hc.right]
    exact mem_lookup_iff.mpr hc.left
  unfold winners
  generalize counts.entries.filter (fun c => c.2 = counts.best) = winning at hkeys hmem
  rcases winning with _ | ⟨c, _ | ⟨d, rest⟩⟩
  . simp
  . simp
  have heq := hunique c.1 d.1 (hmem c (by simp)) (hmem d (by simp))
  simp [List.NodupKeys, heq] at hkeys

end Counts

end Tally
