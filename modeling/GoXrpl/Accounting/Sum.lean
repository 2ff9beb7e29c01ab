import Mathlib.Data.List.AList

/-!
This module contains sums over the entries of a map, the number of voters of a map that voted one
way, and how both change with one entry.
-/

open List

namespace Accounting

variable {K V : Type} {f g : K → V → Nat}

theorem foldr_congr (l : List (Sigma fun _ : K => V)) (h : ∀ e ∈ l, f e.1 e.2 = g e.1 e.2)
    : l.foldr (fun e n => f e.1 e.2 + n) 0 = l.foldr (fun e n => g e.1 e.2 + n) 0 := by
  induction l with
  | nil => rfl
  | cons e l ih =>
    rw [foldr_cons, foldr_cons, h e mem_cons_self,
      ih fun e' he' => h e' (mem_cons_of_mem e he')]

variable [DecidableEq K]

def sum (f : K → V → Nat) (m : AList fun _ : K => V) : Nat :=
  m.entries.foldr (fun e n => f e.1 e.2 + n) 0

theorem sum_insert (m : AList fun _ : K => V)
    : sum f (m.insert k v) = f k v + sum f (m.erase k) := by
  unfold sum
  rw [AList.entries_insert]
  rfl

theorem foldr_kerase (l : List (Sigma fun _ : K => V)) (h : l.dlookup k = some v)
    : l.foldr (fun e n => f e.1 e.2 + n) 0
        = f k v + (l.kerase k).foldr (fun e n => f e.1 e.2 + n) 0 := by
  induction l with
  | nil => cases h
  | cons e l ih =>
    obtain ⟨k', v'⟩ := e
    by_cases heq : k = k'
    . subst heq
      rw [dlookup_cons_eq] at h
      cases h
      have hkerase : kerase k (⟨k, v⟩ :: l) = l := kerase_cons_eq rfl
      rw [hkerase]
      rfl
    rw [dlookup_cons_ne _ _ heq] at h
    rw [kerase_cons_ne heq, foldr_cons, foldr_cons, ih h]
    omega

variable {m : AList fun _ : K => V}

theorem sum_of_lookup (h : m.lookup k = some v) : sum f m = f k v + sum f (m.erase k) :=
  foldr_kerase m.entries h

theorem sum_change (h : m.lookup k = some v) : sum f (m.insert k w) + f k v = sum f m + f k w := by
  rw [sum_insert, sum_of_lookup h]
  omega

theorem sum_change_two (hk : m.lookup k = some v) (hl : m.lookup l = some w) (hne : k ≠ l)
    : sum f ((m.insert k x).insert l y) + f k v + f l w = sum f m + f k x + f l y := by
  have hl' : (m.insert k x).lookup l = some w := by
    rw [AList.lookup_insert_ne hne.symm, hl]
  have h₁ := sum_change (f := f) (w := y) hl'
  have h₂ := sum_change (f := f) (w := x) hk
  omega

theorem le_sum (h : m.lookup k = some v) : f k v ≤ sum f m := by
  rw [sum_of_lookup h]
  omega

theorem sum_erase_congr (h : ∀ k' v', k' ≠ k → f k' v' = g k' v')
    : sum f (m.erase k) = sum g (m.erase k) := by
  apply foldr_congr
  intro e he
  apply h
  rintro rfl
  exact notMem_keys_kerase e.1 m.nodupKeys (mem_keys_of_mem he)

theorem erase_eq_self (h : k ∉ m) : m.erase k = m := by
  apply AList.ext
  exact kerase_of_notMem_keys h

variable {votes : AList fun _ : K => Bool}

def countVotes (b : Bool) (votes : AList fun _ : K => Bool) : Nat :=
  sum (fun _ v => if v = b then 1 else 0) votes

theorem countVotes_insert (b : Bool) (h : votes.lookup k = none)
    : countVotes b (votes.insert k v) = countVotes b votes + if v = b then 1 else 0 := by
  unfold countVotes
  rw [sum_insert, erase_eq_self (AList.lookup_eq_none.mp h)]
  omega

theorem countVotes_erase (b : Bool) (h : votes.lookup k = some w)
    : countVotes b (votes.erase k) + (if w = b then 1 else 0) = countVotes b votes := by
  unfold countVotes
  rw [sum_of_lookup h]
  omega

theorem countVotes_change (b : Bool) (h : votes.lookup k = some w)
    : countVotes b (votes.insert k v) + (if w = b then 1 else 0)
        = countVotes b votes + if v = b then 1 else 0 := by
  exact sum_change h

end Accounting
