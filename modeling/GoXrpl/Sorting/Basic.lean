import Mathlib.Data.List.Sort

/-!
This module contains stable sorting by a comparison that says which of two elements comes first.
-/

namespace Sorting

variable {α κ : Type}

structure StrictWeak (less : α → α → Bool) : Prop where
  asymm : ∀ a b, less a b = true → less b a = false
  negTrans : ∀ a b c, less a b = false → less b c = false → less a c = false

section Keys

variable [LE κ] [LT κ] [DecidableLT κ] [Std.LawfulOrderLT κ] [Std.IsLinearOrder κ]

theorem StrictWeak.of_key (k : α → κ) : StrictWeak fun a b => decide (k a < k b) where
  asymm a b h := by
    rw [decide_eq_false_iff_not, Std.not_lt]
    exact Std.le_of_lt (of_decide_eq_true h)
  negTrans a b c hab hbc := by
    rw [decide_eq_false_iff_not, Std.not_lt] at hab hbc ⊢
    exact Std.le_trans hbc hab

variable [DecidableEq κ]

theorem StrictWeak.lex (k : α → κ) (h : StrictWeak less)
    : StrictWeak fun a b => if k a ≠ k b then decide (k a < k b) else less a b where
  asymm a b hab := by
    by_cases hkey : k a = k b
    . rw [if_neg (not_not.mpr hkey)] at hab
      rw [if_neg (not_not.mpr hkey.symm)]
      exact h.asymm a b hab
    rw [if_pos hkey] at hab
    rw [if_pos (Ne.symm hkey)]
    exact (StrictWeak.of_key k).asymm a b hab
  negTrans a b c hab hbc := by
    have hle (x y : α) (hxy : (if k x ≠ k y then decide (k x < k y) else less x y) = false)
        : k y ≤ k x := by
      by_cases hkey : k x = k y
      . rw [hkey]
        exact Std.le_refl _
      rw [if_pos hkey, decide_eq_false_iff_not, Std.not_lt] at hxy
      exact hxy
    by_cases hac : k a = k c
    . have hcb : k c ≤ k b := hle b c hbc
      have hba : k b ≤ k a := hle a b hab
      have hab' : k a = k b := Std.le_antisymm (hac ▸ hcb) hba
      rw [if_neg (not_not.mpr hab')] at hab
      rw [if_neg (not_not.mpr (hab'.symm.trans hac))] at hbc
      rw [if_neg (not_not.mpr hac)]
      exact h.negTrans a b c hab hbc
    rw [if_pos hac, decide_eq_false_iff_not, Std.not_lt]
    exact Std.le_trans (hle b c hbc) (hle a b hab)

end Keys

def stableSort (less : α → α → Bool) (l : List α) : List α :=
  l.insertionSort fun a b => !less b a

theorem perm_stableSort (less : α → α → Bool) (l : List α) : (stableSort less l).Perm l :=
  List.perm_insertionSort _ l

theorem pairwise_stableSort (h : StrictWeak less) (l : List α)
    : (stableSort less l).Pairwise fun a b => less b a = false := by
  have htrans : IsTrans α fun a b => (!less b a) = true := by
    constructor
    intro a b c hab hbc
    rw [Bool.not_eq_true'] at hab hbc ⊢
    exact h.negTrans c b a hbc hab
  have htotal : Std.Total fun a b => (!less b a) = true := by
    constructor
    intro a b
    rw [Bool.not_eq_true', Bool.not_eq_true']
    cases hba : less b a with
    | false => exact .inl rfl
    | true => exact .inr (h.asymm b a hba)
  have hpairwise := List.pairwise_insertionSort (fun a b => (!less b a) = true) l
  apply hpairwise.imp
  intro a b hab
  rw [Bool.not_eq_true'] at hab
  exact hab

theorem stableSort_eq_of_perm (h : StrictWeak less) (hperm : l.Perm l')
    (hdistinct : ∀ a ∈ l, ∀ b ∈ l, less a b = false → less b a = false → a = b)
    : stableSort less l = stableSort less l' := by
  apply List.Perm.eq_of_pairwise _ (pairwise_stableSort h l) (pairwise_stableSort h l')
  . exact (perm_stableSort less l).trans (hperm.trans (perm_stableSort less l').symm)
  intro a b ha hb hba hab
  apply hdistinct a _ b _ hab hba
  . exact (perm_stableSort less l).mem_iff.mp ha
  . exact hperm.mem_iff.mpr ((perm_stableSort less l').mem_iff.mp hb)

end Sorting
