import Mathlib.Data.List.Nodup

/-!
This module contains radix trees over keys that are read one digit at a time, independently of what
is stored at the leaves and of what is cached at the inner nodes.
-/

open List

namespace Radix

inductive Tree (n : Nat) (κ α : Type) where
  | nil
  | leaf (k : κ) (a : α)
  | inner (c : Fin n → Tree n κ α)

theorem finRange_split (b : Fin n)
    : finRange n = (finRange n).take b ++ b :: (finRange n).drop (b + 1) := by
  have hb : (b : Nat) < (finRange n).length := by simp
  have hcons : (finRange n).drop b = b :: (finRange n).drop (b + 1) := by
    rw [drop_eq_getElem_cons hb, getElem_finRange]
    rfl
  rw [← hcons, take_append_drop]

theorem lt_of_mem_take_finRange (h : i ∈ (finRange n).take b) : i < b := by
  rw [mem_take_iff_getElem] at h
  obtain ⟨j, hj, rfl⟩ := h
  simp only [getElem_finRange, Fin.val_cast]
  omega

theorem lt_of_mem_drop_finRange (h : i ∈ (finRange n).drop (b + 1)) : b < i := by
  rw [mem_drop_iff_getElem] at h
  obtain ⟨j, hj, rfl⟩ := h
  simp only [getElem_finRange, Fin.val_cast]
  omega

namespace Tree

variable {κ α : Type}

def items : Tree n κ α → List (κ × α)
  | nil => []
  | leaf k a => [(k, a)]
  | inner c => (List.finRange n).flatMap fun i => (c i).items

@[simp]
theorem items_nil : (nil : Tree n κ α).items = [] := rfl

@[simp]
theorem items_leaf (k : κ) (a : α) : (leaf k a : Tree n κ α).items = [(k, a)] := rfl

theorem items_inner (c : Fin n → Tree n κ α)
    : (inner c).items = (finRange n).flatMap fun i => (c i).items := rfl

variable {c : Fin n → Tree n κ α}

@[simp]
theorem mem_items_inner : x ∈ (inner c).items ↔ ∃ i, x ∈ (c i).items := by
  simp [items_inner]

theorem items_eq_of_single (h : ∀ j, j ≠ i → c j = nil) : (inner c).items = (c i).items := by
  have hrest : ∀ l : List (Fin n), i ∉ l → (l.flatMap fun j => (c j).items) = [] := by
    intro l hl
    rw [flatMap_eq_nil_iff]
    intro j hj
    rw [h j fun hji => hl (hji ▸ hj), items_nil]
  rw [items_inner, finRange_split i, flatMap_append, flatMap_cons, hrest, hrest]
  . simp
  . intro hi
    exact absurd (lt_of_mem_drop_finRange hi) (Fin.lt_irrefl i)
  intro hi
  exact absurd (lt_of_mem_take_finRange hi) (Fin.lt_irrefl i)

def noChildren : Fin n → Tree n κ α := fun _ => nil

@[simp]
theorem noChildren_apply (i : Fin n) : (noChildren i : Tree n κ α) = nil := rfl

section Placed

variable (digit : κ → Nat → Fin n)

def Placed : Nat → Tree n κ α → Prop
  | _, nil => True
  | _, leaf _ _ => True
  | d, inner c => ∀ i, (∀ x ∈ (c i).items, digit x.1 d = i) ∧ Placed (d + 1) (c i)

def Below (k : κ) (d : Nat) (t : Tree n κ α) : Prop :=
  ∀ x ∈ t.items, ∀ e < d, digit x.1 e = digit k e

def Compact : Tree n κ α → Prop
  | nil => True
  | leaf _ _ => True
  | inner c => 2 ≤ (inner c).items.length ∧ ∀ i, (c i).Compact

def Canonical : Tree n κ α → Prop
  | inner c => Placed digit 0 (inner c) ∧ ∀ i, (c i).Compact
  | _ => False

variable {digit}

theorem Placed.child (h : Placed digit d (inner c)) (i : Fin n)
    : Placed digit (d + 1) (c i) := (h i).2

theorem Placed.digit_eq (h : Placed digit d (inner c)) (hx : x ∈ (c i).items)
    : digit x.1 d = i := (h i).1 x hx

theorem Placed.mem_iff (h : Placed digit d (inner c))
    : x ∈ (inner c).items ↔ x ∈ (c (digit x.1 d)).items := by
  rw [mem_items_inner]
  constructor
  . rintro ⟨i, hi⟩
    rw [h.digit_eq hi]
    exact hi
  intro hx
  exact ⟨_, hx⟩

theorem Below.child (hb : Below digit k d (inner c)) (hp : Placed digit d (inner c))
    : Below digit k (d + 1) (c (digit k d)) := by
  intro x hx e he
  by_cases hed : e = d
  . subst hed
    exact hp.digit_eq hx
  . exact hb x (mem_items_inner.mpr ⟨_, hx⟩) e (by omega)

theorem below_zero (k : κ) (t : Tree n κ α) : Below digit k 0 t := by
  intro x _ e he
  omega

theorem Placed.nodup_keys (h : Placed digit d t) : (t.items.map Prod.fst).Nodup := by
  induction t generalizing d with
  | nil => simp
  | leaf => simp
  | inner c ih =>
    rw [items_inner, map_flatMap, nodup_flatMap]
    constructor
    . intro i _
      exact ih i (h.child i)
    refine (nodup_finRange n).imp_of_mem ?_
    intro i j _ _ hij
    simp only [Function.onFun, disjoint_left, mem_map, not_exists, not_and]
    rintro k ⟨x, hx, rfl⟩ y hy hxy
    -- one key below two branches would have two digits at depth `d`
    apply hij
    rw [← h.digit_eq hx, ← h.digit_eq hy, hxy]

theorem Placed.item_unique (h : Placed digit d t) (ha : (k, a) ∈ t.items) (hb : (k, b) ∈ t.items)
    : a = b := by
  have := inj_on_of_nodup_map h.nodup_keys ha hb rfl
  simpa using this

end Placed

theorem Compact.child (h : (inner c).Compact) (i : Fin n)
    : (c i).Compact := h.2 i

theorem Compact.two_le (h : (inner c).Compact)
    : 2 ≤ (inner c).items.length := h.1

theorem Compact.eq_nil_iff (h : t.Compact) : t = nil ↔ t.items = [] := by
  cases t with
  | nil => simp
  | leaf => simp
  | inner c =>
    have := h.two_le
    constructor
    . intro heq
      cases heq
    intro heq
    simp [heq] at this

theorem Compact.exists_mem (h : t.Compact) (hne : t ≠ nil) : ∃ x, x ∈ t.items :=
  exists_mem_of_ne_nil _ fun hitems => hne (h.eq_nil_iff.mpr hitems)

theorem Compact.eq_leaf_iff (h : t.Compact) : t = leaf k a ↔ t.items = [(k, a)] := by
  cases t with
  | nil => simp
  | leaf => simp
  | inner c =>
    have := h.two_le
    constructor
    . intro heq
      cases heq
    intro heq
    simp [heq] at this

theorem Placed.items_child_iff (h : Placed digit d (inner c)) (h' : Placed digit d (inner c'))
    (heq : ∀ x, x ∈ (inner c).items ↔ x ∈ (inner c').items) (i : Fin n)
    : ∀ x, x ∈ (c i).items ↔ x ∈ (c' i).items := by
  intro x
  constructor
  . intro hx
    have hd := h.digit_eq hx
    have := (heq x).mp (mem_items_inner.mpr ⟨i, hx⟩)
    rwa [h'.mem_iff, hd] at this
  intro hx
  have hd := h'.digit_eq hx
  have := (heq x).mpr (mem_items_inner.mpr ⟨i, hx⟩)
  rwa [h.mem_iff, hd] at this

theorem Placed.nodup_items (h : Placed digit d t)
    : t.items.Nodup := h.nodup_keys.of_map

theorem eq_of_mem_iff (hp : Placed digit d t)
    (hp' : Placed digit d t') (hc : t.Compact) (hc' : t'.Compact)
    (heq : ∀ x, x ∈ t.items ↔ x ∈ t'.items)
    : t = t' := by
  have hperm := (perm_ext_iff_of_nodup hp.nodup_items hp'.nodup_items).mpr heq
  induction t generalizing d t' with
  | nil =>
    have : t'.items = [] := by simpa using hperm.symm
    exact (hc'.eq_nil_iff.mpr this).symm
  | leaf k a =>
    have : t'.items = [(k, a)] := by simpa using hperm.symm
    exact (hc'.eq_leaf_iff.mpr this).symm
  | inner c ih =>
    have hlen := hperm.length_eq
    have htwo := hc.two_le
    cases t' with
    | nil => simp [hlen] at htwo
    | leaf => simp [hlen] at htwo
    | inner c' =>
      congr 1
      funext i
      have hi := hp.items_child_iff hp' heq i
      apply ih i (hp.child i) (hp'.child i) (hc.child i) (hc'.child i) hi
      exact (perm_ext_iff_of_nodup (hp.child i).nodup_items (hp'.child i).nodup_items).mpr hi

theorem Canonical.eq_of_mem_iff (h : Canonical digit t)
    (h' : Canonical digit t') (heq : ∀ x, x ∈ t.items ↔ x ∈ t'.items)
    : t = t' := by
  cases t with
  | nil => exact h.elim
  | leaf => exact h.elim
  | inner c =>
    cases t' with
    | nil => exact h'.elim
    | leaf => exact h'.elim
    | inner c' =>
      congr 1
      funext i
      exact Tree.eq_of_mem_iff (h.1.child i) (h'.1.child i) (h.2 i) (h'.2 i)
        (h.1.items_child_iff h'.1 heq i)

section Lookup

variable [DecidableEq κ] (digit : κ → Nat → Fin n)

def lookup (k : κ) : Nat → Tree n κ α → Option α
  | _, nil => none
  | _, leaf k' a => if k = k' then some a else none
  | d, inner c => lookup k (d + 1) (c (digit k d))

variable {digit}

theorem lookup_eq_some_iff (h : Placed digit d t)
    : lookup digit k d t = some a ↔ (k, a) ∈ t.items := by
  induction t generalizing d with
  | nil => simp [lookup]
  | leaf k' b =>
    simp only [lookup, items_leaf, mem_singleton, Prod.mk.injEq]
    split
    . next hk => simp [hk, eq_comm]
    . next hk => simp [hk]
  | inner c ih =>
    rw [h.mem_iff]
    exact ih _ (h.child _)

theorem lookup_eq_none_iff (h : Placed digit d t)
    : lookup digit k d t = none ↔ ∀ a, (k, a) ∉ t.items := by
  rw [Option.eq_none_iff_forall_ne_some]
  constructor
  . intro hne a ha
    exact hne a ((lookup_eq_some_iff h).mpr ha)
  intro hne a ha
  exact hne a ((lookup_eq_some_iff h).mp ha)

end Lookup

end Tree

end Radix
