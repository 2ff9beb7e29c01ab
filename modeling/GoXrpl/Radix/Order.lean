import GoXrpl.Radix.Update
import Mathlib.Order.Fin.Basic

/-!
This module contains the order in which a placed tree stores its items and the two searches for the
neighbours of a key.
-/

open List

namespace Radix

variable {κ α : Type}

def Lexicographic [LT κ] (digit : κ → Nat → Fin n) : Prop :=
  ∀ a b : κ, a < b ↔ ∃ d, (∀ e < d, digit a e = digit b e) ∧ digit a d < digit b d

namespace Lexicographic

variable [LT κ] {digit : κ → Nat → Fin n}

variable (hlex : Lexicographic digit)

include hlex

theorem asymm {a b : κ} (hab : a < b) : ¬ b < a := by
  intro hba
  obtain ⟨d, hd, hdlt⟩ := (hlex a b).mp hab
  obtain ⟨e, he, helt⟩ := (hlex b a).mp hba
  rcases Nat.lt_trichotomy d e with h | h | h
  . rw [he d h] at hdlt
    exact absurd hdlt (lt_irrefl _)
  . subst h
    exact absurd hdlt (lt_asymm helt)
  rw [hd e h] at helt
  exact absurd helt (lt_irrefl _)

theorem trans {a b c : κ} (hab : a < b) (hbc : b < c) : a < c := by
  obtain ⟨d, hd, hdlt⟩ := (hlex a b).mp hab
  obtain ⟨e, he, helt⟩ := (hlex b c).mp hbc
  refine (hlex a c).mpr ⟨min d e, ?_, ?_⟩
  . intro i hi
    rw [hd i (by omega), he i (by omega)]
  rcases Nat.lt_trichotomy d e with h | h | h
  . rw [Nat.min_eq_left (by omega), ← he d h]
    exact hdlt
  . subst h
    rw [Nat.min_self]
    exact lt_trans hdlt helt
  rw [Nat.min_eq_right (by omega), hd e h]
  exact helt

theorem irrefl (a : κ) : ¬ a < a :=
  fun h => hlex.asymm h h

theorem trichotomy (hsep : Separates digit D) (a b : κ) : a < b ∨ a = b ∨ b < a := by
  by_cases hab : a = b
  . exact .inr (.inl hab)
  obtain ⟨_, _, hdiff, hsame⟩ := firstDiff_spec (d := 0) hsep hab (by omega)
  rcases lt_or_gt_of_ne hdiff with h | h
  . exact .inl ((hlex a b).mpr ⟨_, hsame, h⟩)
  . exact .inr (.inr ((hlex b a).mpr ⟨_, fun e he => (hsame e he).symm, h⟩))

end Lexicographic

section SortedList

variable {β : Type} {l : List β}

theorem find?_eq_some_iff_of_pairwise (hasymm : ∀ {a b}, r a b → ¬ r b a) (h : l.Pairwise r)
    : l.find? p = some a ↔ a ∈ l ∧ p a = true ∧ ∀ b ∈ l, p b = true → ¬ r b a := by
  induction l with
  | nil => simp
  | cons x l ih =>
    rw [pairwise_cons] at h
    by_cases hx : p x = true
    . rw [find?_cons_of_pos hx, Option.some.injEq]
      constructor
      . rintro rfl
        refine ⟨by simp, hx, ?_⟩
        intro b hb _ hba
        rcases mem_cons.mp hb with rfl | hb
        . exact hasymm hba hba
        . exact hasymm hba (h.1 b hb)
      rintro ⟨ha, _, hleast⟩
      rcases mem_cons.mp ha with rfl | ha
      . rfl
      . exact absurd (h.1 a ha) (hleast x (by simp) hx)
    rw [find?_cons_of_neg hx, ih h.2]
    constructor
    . rintro ⟨ha, hpa, hleast⟩
      refine ⟨by simp [ha], hpa, ?_⟩
      intro b hb hpb
      rcases mem_cons.mp hb with rfl | hb
      . exact absurd hpb hx
      . exact hleast b hb hpb
    rintro ⟨ha, hpa, hleast⟩
    rcases mem_cons.mp ha with rfl | ha
    . exact absurd hpa hx
    . exact ⟨ha, hpa, fun b hb => hleast b (by simp [hb])⟩

theorem filter_eq_find?_cons [DecidableRel r] (hasymm : ∀ {a b}, r a b → ¬ r b a)
    (h : l.Pairwise r) (hq : ∀ {a b}, q a = true → r a b → q b = true)
    : l.filter q
        =
      match l.find? q with
      | none => []
      | some a => a :: l.filter fun b => r a b := by
  induction l with
  | nil => rfl
  | cons x l ih =>
    rw [pairwise_cons] at h
    by_cases hx : q x = true
    . have hall : l.filter q = l := by
        rw [filter_eq_self]
        intro b hb
        exact hq hx (h.1 b hb)
      have hall' : (l.filter fun b => r x b) = l := by
        rw [filter_eq_self]
        intro b hb
        simpa using h.1 b hb
      have hxx : ¬ r x x := fun hxx => hasymm hxx hxx
      rw [filter_cons_of_pos hx, find?_cons_of_pos hx, hall]
      simp [hxx, hall']
    rw [filter_cons_of_neg hx, find?_cons_of_neg hx, ih h.2]
    cases hfind : l.find? q with
    | none => rfl
    | some a =>
      have hax : ¬ r a x := hasymm (h.1 a (mem_of_find?_eq_some hfind))
      simp [hax]

end SortedList

namespace Tree

section Sorted

variable [LT κ] {digit : κ → Nat → Fin n}

variable (hlex : Lexicographic digit)

include hlex

theorem Placed.sorted_aux {t : Tree n κ α} (hp : Placed digit d t) (hb : ∀ x ∈ t.items, Below digit x.1 d t)
    : t.items.Pairwise fun x y => x.1 < y.1 := by
  induction t generalizing d with
  | nil => simp
  | leaf => simp
  | inner c ih =>
    rw [items_inner, pairwise_flatMap]
    constructor
    . intro i _
      apply ih i (hp.child i)
      intro x hx
      have := (hb x (mem_items_inner.mpr ⟨i, hx⟩)).child hp
      rwa [hp.digit_eq hx] at this
    refine (pairwise_lt_finRange n).imp_of_mem ?_
    intro i j _ _ hij x hx y hy
    refine (hlex _ _).mpr ⟨d, ?_, ?_⟩
    . exact hb y (mem_items_inner.mpr ⟨j, hy⟩) x (mem_items_inner.mpr ⟨i, hx⟩)
    rw [hp.digit_eq hx, hp.digit_eq hy]
    exact hij

theorem Placed.sorted {t : Tree n κ α} (hp : Placed digit 0 t)
    : t.items.Pairwise fun x y => x.1 < y.1 :=
  hp.sorted_aux hlex fun _ _ => below_zero _ _

theorem Placed.lt_of_branch_lt (hp : Placed digit d (inner c)) (hb : Below digit k d (inner c))
    (hx : x ∈ (c i).items) (hi : i < digit k d)
    : x.1 < k := by
  refine (hlex _ _).mpr ⟨d, hb x (mem_items_inner.mpr ⟨i, hx⟩), ?_⟩
  rw [hp.digit_eq hx]
  exact hi

theorem Placed.lt_of_lt_branch (hp : Placed digit d (inner c)) (hb : Below digit k d (inner c))
    (hx : x ∈ (c i).items) (hi : digit k d < i)
    : k < x.1 := by
  refine (hlex _ _).mpr ⟨d, ?_, ?_⟩
  . intro e he
    exact (hb x (mem_items_inner.mpr ⟨i, hx⟩) e he).symm
  rw [hp.digit_eq hx]
  exact hi

end Sorted

section Bounds

def first : Tree n κ α → Option (κ × α)
  | nil => none
  | leaf k a => some (k, a)
  | inner c => (List.finRange n).findSome? fun i => (c i).first

def last : Tree n κ α → Option (κ × α)
  | nil => none
  | leaf k a => some (k, a)
  | inner c => (List.finRange n).reverse.findSome? fun i => (c i).last

theorem first_eq_head? (t : Tree n κ α) : t.first = t.items.head? := by
  induction t with
  | nil => rfl
  | leaf => rfl
  | inner c ih =>
    rw [items_inner, head?_flatMap]
    simp only [first, ih]

theorem last_eq_getLast? (t : Tree n κ α) : t.last = t.items.getLast? := by
  induction t with
  | nil => rfl
  | leaf => rfl
  | inner c ih =>
    rw [items_inner, getLast?_flatMap]
    simp only [last, ih]

variable [LT κ] [DecidableLT κ]

def nextAbove (digit : κ → Nat → Fin n) (k : κ) : Nat → Tree n κ α → Option (κ × α)
  | _, nil => none
  | _, leaf k' a => if k < k' then some (k', a) else none
  | d, inner c =>
    (nextAbove digit k (d + 1) (c (digit k d))).or
      (((List.finRange n).drop (digit k d + 1)).findSome? fun i => (c i).first)

def nextBelow (digit : κ → Nat → Fin n) (k : κ) : Nat → Tree n κ α → Option (κ × α)
  | _, nil => none
  | _, leaf k' a => if k' < k then some (k', a) else none
  | d, inner c =>
    (nextBelow digit k (d + 1) (c (digit k d))).or
      (((List.finRange n).take (digit k d)).reverse.findSome? fun i => (c i).last)

theorem find?_flatMap_split
    (hbefore : ∀ j ∈ l₁, ∀ x ∈ f j, ¬ p x) (hafter : ∀ j ∈ l₂, ∀ x ∈ f j, p x)
    : ((l₁ ++ i :: l₂).flatMap f).find? p
        = ((f i).find? p).or (l₂.findSome? fun j => (f j).head?) := by
  have hnone : l₁.findSome? (fun j => (f j).find? p) = none := by
    rw [findSome?_eq_none_iff]
    intro j hj
    rw [find?_eq_none]
    exact hbefore j hj
  have hhead : l₂.findSome? (fun j => (f j).find? p) = l₂.findSome? fun j => (f j).head? := by
    induction l₂ with
    | nil => rfl
    | cons j l ih =>
      rw [findSome?_cons, findSome?_cons, ih fun j hj => hafter j (mem_cons_of_mem _ hj)]
      have hj := hafter j mem_cons_self
      cases hx : f j with
      | nil => rfl
      | cons x xs =>
        rw [hx] at hj
        simp [hj x mem_cons_self]
  rw [find?_flatMap, findSome?_append, findSome?_cons, hnone, hhead, Option.none_or]
  cases (f i).find? p <;> rfl

theorem nextAbove_eq_find? {t : Tree n κ α} (hlex : Lexicographic digit)
    (hp : Placed digit d t) (hb : Below digit k d t)
    : nextAbove digit k d t = t.items.find? fun x => k < x.1 := by
  induction t generalizing d with
  | nil => rfl
  | leaf k' a =>
    by_cases h : k < k'
    . simp [nextAbove, h]
    . simp [nextAbove, h]
  | inner c ih =>
    rw [items_inner, finRange_split (digit k d), find?_flatMap_split, ← ih _ (hp.child _) (hb.child hp)]
    . simp only [nextAbove, first_eq_head?]
    . intro i hi x hx
      simpa using hlex.asymm (hp.lt_of_branch_lt hlex hb hx (lt_of_mem_take_finRange hi))
    intro i hi x hx
    simpa using hp.lt_of_lt_branch hlex hb hx (lt_of_mem_drop_finRange hi)

theorem nextBelow_eq_find? {t : Tree n κ α} (hlex : Lexicographic digit)
    (hp : Placed digit d t) (hb : Below digit k d t)
    : nextBelow digit k d t = t.items.reverse.find? fun x => x.1 < k := by
  induction t generalizing d with
  | nil => rfl
  | leaf k' a =>
    by_cases h : k' < k
    . simp [nextBelow, h]
    . simp [nextBelow, h]
  | inner c ih =>
    rw [items_inner, reverse_flatMap, finRange_split (digit k d), reverse_append,
      reverse_cons, append_assoc, singleton_append, find?_flatMap_split]
    . simp only [Function.comp_apply, head?_reverse]
      rw [← ih _ (hp.child _) (hb.child hp)]
      simp only [nextBelow, last_eq_getLast?]
    . intro i hi x hx
      have hlt := hp.lt_of_lt_branch hlex hb (mem_reverse.mp hx)
        (lt_of_mem_drop_finRange (mem_reverse.mp hi))
      simpa using hlex.asymm hlt
    intro i hi x hx
    simpa using hp.lt_of_branch_lt hlex hb (mem_reverse.mp hx)
      (lt_of_mem_take_finRange (mem_reverse.mp hi))

end Bounds

end Tree

end Radix
