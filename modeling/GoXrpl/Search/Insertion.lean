import GoXrpl.Search.Bisect
import GoXrpl.Sorting.Basic

/-!
This module contains the insertion into a sorted list at the position that a bisection finds.
-/

open List

namespace Search

open Sorting (StrictWeak)

variable {α : Type}

def insertPosition (less : α → α → Bool) (a : α) (l : List α) : Nat :=
  bisect (fun mid => (l[mid]?).all fun b => less a b = false) l.length 0 l.length

def SortedBy (less : α → α → Bool) (l : List α) : Prop := l.Pairwise fun a b => less b a = false

variable {less : α → α → Bool} {l : List α}

section

variable (hless : StrictWeak less) (h : SortedBy less l)

include hless h

theorem insertPosition_threshold (a : α)
    : Threshold (fun mid => (l[mid]?).all fun b => less a b = false) 0 l.length
        (insertPosition less a l) := by
  apply bisect_threshold
  . exact Nat.zero_le _
  . exact Nat.sub_le _ _
  intro i j _ hij hj hafter
  rcases Nat.lt_or_eq_of_le hij with hlt | rfl
  . have hi : i < l.length := Nat.lt_trans hlt hj
    rw [getElem?_eq_getElem hj, Option.all_some, decide_eq_true_iff] at hafter
    rw [getElem?_eq_getElem hi, Option.all_some, decide_eq_true_iff]
    exact hless.negTrans a _ _ hafter (pairwise_iff_getElem.mp h i j hi hj hlt)
  . exact hafter

theorem less_of_mem_take (hb : b ∈ l.take (insertPosition less a l)) : less a b = false := by
  obtain ⟨i, hi, rfl⟩ := mem_take_iff_getElem.mp hb
  have hpos := Nat.lt_min.mp hi
  have hholds := (insertPosition_threshold hless h a).holds i (Nat.zero_le i) hpos.1
  rw [getElem?_eq_getElem hpos.2, Option.all_some, decide_eq_true_iff] at hholds
  exact hholds

theorem less_of_mem_drop (hb : b ∈ l.drop (insertPosition less a l)) : less b a = false := by
  obtain ⟨i, hi, rfl⟩ := mem_drop_iff_getElem.mp hb
  have hlt : insertPosition less a l + i < l.length := by omega
  have hfails := (insertPosition_threshold hless h a).fails _ (Nat.le_add_right _ i) hlt
  rw [getElem?_eq_getElem hlt, Option.all_some, decide_eq_true_iff, Bool.not_eq_false] at hfails
  exact hless.asymm _ _ hfails

theorem sortedBy_insert (a : α)
    : SortedBy less (l.take (insertPosition less a l) ++ a :: l.drop (insertPosition less a l)) := by
  have hsplit := h
  rw [← take_append_drop (insertPosition less a l) l] at hsplit
  unfold SortedBy at hsplit
  rw [pairwise_append] at hsplit
  obtain ⟨htake, hdrop, hacross⟩ := hsplit
  apply pairwise_append.mpr
  refine ⟨htake, pairwise_cons.mpr ⟨?_, hdrop⟩, ?_⟩
  . intro b hb
    exact less_of_mem_drop hless h hb
  intro b hb c hc
  rcases mem_cons.mp hc with rfl | hc
  . exact less_of_mem_take hless h hb
  . exact hacross b hb c hc

end

theorem insert_perm (a : α) (l : List α) (pos : Nat)
    : (l.take pos ++ a :: l.drop pos).Perm (a :: l) := by
  apply perm_middle.trans
  rw [take_append_drop]

end Search
