import GoXrpl.SHAMap.LeafKinds
import GoXrpl.SHAMap.Lemmas.Compare
import GoXrpl.SHAMap.Lemmas.Digest
import GoXrpl.SHAMap.Refinement
import Mathlib.Data.List.Perm.Basic

open List SHAMap.DifferenceItem

namespace SHAMap

open Radix Emission

def modifiedDiff (first second : Item) : DifferenceItem :=
  {
    key := first.key
    type := .modified
    firstItem := some first
    secondItem := some second
  }

inductive IsDiff (A B : Item → Prop) : DifferenceItem → Prop where
  | removed (x : Item) (hx : A x) (h : ∀ y, B y → y.key ≠ x.key)
      : IsDiff A B { key := x.key, type := .removed, firstItem := some x, secondItem := none }
  | added (y : Item) (hy : B y) (h : ∀ x, A x → x.key ≠ y.key)
      : IsDiff A B { key := y.key, type := .added, firstItem := none, secondItem := some y }
  | modified (x y : Item) (hx : A x) (hy : B y) (hkey : x.key = y.key) (hdata : x.data ≠ y.data)
      : IsDiff A B (modifiedDiff x y)

structure Exact (l : List DifferenceItem) (A B : Item → Prop) : Prop where
  nodup : (l.map key).Nodup
  mem_iff : ∀ d, d ∈ l ↔ IsDiff A B d

theorem IsDiff.key_mem (h : IsDiff A B d) : ∃ x, (A x ∨ B x) ∧ x.key = d.key := by
  cases h with
  | removed x hx _ => exact ⟨x, .inl hx, rfl⟩
  | added y hy _ => exact ⟨y, .inr hy, rfl⟩
  | modified x y hx _ _ _ => exact ⟨x, .inl hx, rfl⟩

def DifferenceItem.swap (d : DifferenceItem) : DifferenceItem :=
  {
    key := d.key
    type :=
      match d.type with
      | .added => .removed
      | .removed => .added
      | .modified => .modified
    firstItem := d.secondItem
    secondItem := d.firstItem
  }

theorem DifferenceItem.swap_swap (d : DifferenceItem) : d.swap.swap = d := by
  obtain ⟨key, type, first, second⟩ := d
  cases type <;> rfl

theorem IsDiff.swap (h : IsDiff A B d) : IsDiff B A d.swap := by
  cases h with
  | removed x hx h => exact .added x hx h
  | added y hy h => exact .removed y hy h
  | modified x y hx hy hkey hdata =>
    have hswap : (modifiedDiff x y).swap = modifiedDiff y x := by
      simp [DifferenceItem.swap, modifiedDiff, hkey]
    rw [hswap]
    exact .modified y x hy hx hkey.symm fun h => hdata h.symm

namespace Exact

theorem congr (h : Exact l A B) (hA : ∀ x, A x ↔ A' x) (hB : ∀ x, B x ↔ B' x) : Exact l A' B' := by
  rwa [← funext fun x => propext (hA x), ← funext fun x => propext (hB x)]

theorem perm (h : Exact l A B) (hperm : l.Perm l') : Exact l' A B where
  nodup := (hperm.map _).nodup_iff.mp h.nodup
  mem_iff := fun d => (hperm.mem_iff).symm.trans (h.mem_iff d)

theorem unique (h : Exact l A B) (h' : Exact l' A B) : l.Perm l' := by
  rw [perm_ext_iff_of_nodup h.nodup.of_map h'.nodup.of_map]
  intro d
  rw [h.mem_iff, h'.mem_iff]

theorem swap (h : Exact l A B) : Exact (l.map swap) B A where
  nodup := by
    rw [map_map]
    exact h.nodup
  mem_iff := by
    intro d
    rw [mem_map]
    constructor
    . rintro ⟨e, he, rfl⟩
      exact ((h.mem_iff e).mp he).swap
    intro hd
    exact ⟨d.swap, (h.mem_iff _).mpr hd.swap, d.swap_swap⟩

variable {items : List Item}

theorem left (h : (items.map Item.key).Nodup)
    : Exact (items.map (unmatchedDiff true)) (· ∈ items) fun _ => False where
  nodup := by
    rw [map_map]
    exact h
  mem_iff := by
    intro d
    rw [mem_map]
    constructor
    . rintro ⟨x, hx, rfl⟩
      exact .removed x hx fun _ hy => hy.elim
    intro hd
    cases hd with
    | removed x hx _ => exact ⟨x, hx, rfl⟩
    | added y hy _ => exact hy.elim
    | modified x y _ hy => exact hy.elim

theorem right (h : (items.map Item.key).Nodup)
    : Exact (items.map (unmatchedDiff false)) (fun _ => False) (· ∈ items) := by
  have hswap := (left h).swap
  rwa [map_map] at hswap

theorem itemsDiffs_cons_of_key_ne (items : List Item) (h : item.key ≠ other.key)
    : itemsDiffs (some other) true false (item :: items)
        = unmatchedDiff true item :: itemsDiffs (some other) true false items := by
  rw [itemsDiffs]
  simp only [h, if_false]

theorem itemsDiffs_cons_of_key_eq (items : List Item) (h : item.key = other.key)
    : itemsDiffs (some other) true false (item :: items)
        = (if item.data ≠ other.data then [modifiedDiff item other] else [])
            ++ items.map (unmatchedDiff true) := by
  rw [itemsDiffs]
  simp only [h, if_true, modifiedDiff]

theorem mem_itemsDiffs (hnodup : (items.map Item.key).Nodup)
    : d ∈ itemsDiffs (some other) true false items
        ↔ (∃ x ∈ items, x.key ≠ other.key ∧ d = unmatchedDiff true x)
          ∨ ((∀ x ∈ items, x.key ≠ other.key) ∧ d = unmatchedDiff false other)
          ∨ ∃ x ∈ items, x.key = other.key ∧ x.data ≠ other.data ∧ d = modifiedDiff x other := by
  induction items with
  | nil => simp [itemsDiffs]
  | cons item items ih =>
    rw [map_cons, nodup_cons] at hnodup
    by_cases hkey : item.key = other.key
    . -- no later item has the key
      have hlater : ∀ x ∈ items, x.key ≠ other.key := by
        intro x hx heq
        apply hnodup.1
        rw [hkey, ← heq]
        exact mem_map_of_mem hx
      rw [itemsDiffs_cons_of_key_eq items hkey, mem_append, mem_map]
      constructor
      . rintro (hd | ⟨x, hx, rfl⟩)
        . split at hd
          . next hdata =>
            rw [mem_singleton] at hd
            exact .inr (.inr ⟨item, mem_cons_self, hkey, hdata, hd⟩)
          . cases hd
        . exact .inl ⟨x, mem_cons_of_mem _ hx, hlater x hx, rfl⟩
      rintro (⟨x, hx, hne, rfl⟩ | ⟨hall, _⟩ | ⟨x, hx, heq, hdata, rfl⟩)
      . cases hx with
        | head => exact absurd hkey hne
        | tail _ hx => exact .inr ⟨x, hx, rfl⟩
      . exact absurd hkey (hall item mem_cons_self)
      cases hx with
      | head =>
        left
        rw [if_pos hdata]
        exact mem_singleton.mpr rfl
      | tail _ hx => exact absurd heq (hlater x hx)
    rw [itemsDiffs_cons_of_key_ne items hkey, mem_cons, ih hnodup.2]
    constructor
    . rintro (rfl | ⟨x, hx, h⟩ | ⟨hall, h⟩ | ⟨x, hx, h⟩)
      . exact .inl ⟨item, mem_cons_self, hkey, rfl⟩
      . exact .inl ⟨x, mem_cons_of_mem _ hx, h⟩
      . refine .inr (.inl ⟨?_, h⟩)
        intro x hx
        cases hx with
        | head => exact hkey
        | tail _ hx => exact hall x hx
      . exact .inr (.inr ⟨x, mem_cons_of_mem _ hx, h⟩)
    rintro (⟨x, hx, hne, h⟩ | ⟨hall, h⟩ | ⟨x, hx, heq, h⟩)
    . cases hx with
      | head => exact .inl h
      | tail _ hx => exact .inr (.inl ⟨x, hx, hne, h⟩)
    . exact .inr (.inr (.inl ⟨fun x hx => hall x (mem_cons_of_mem _ hx), h⟩))
    cases hx with
    | head => exact absurd heq hkey
    | tail _ hx => exact .inr (.inr (.inr ⟨x, hx, heq, h⟩))

theorem nodup_itemsDiffs (hnodup : (items.map Item.key).Nodup)
    : ((itemsDiffs (some other) true false items).map key).Nodup := by
  induction items with
  | nil => simp [itemsDiffs]
  | cons item items ih =>
    rw [map_cons, nodup_cons] at hnodup
    by_cases hkey : item.key = other.key
    . rw [itemsDiffs_cons_of_key_eq items hkey, map_append, map_map]
      split
      . exact nodup_cons.mpr hnodup
      . exact hnodup.2
    rw [itemsDiffs_cons_of_key_ne items hkey, map_cons]
    refine nodup_cons.mpr ⟨?_, ih hnodup.2⟩
    intro hmem
    obtain ⟨d, hd, hkeyd⟩ := mem_map.mp hmem
    rw [mem_itemsDiffs hnodup.2] at hd
    rcases hd with ⟨x, hx, _, rfl⟩ | ⟨_, rfl⟩ | ⟨x, hx, heq, _, rfl⟩
    . have hsame : x.key = item.key := hkeyd
      exact hnodup.1 (hsame ▸ mem_map_of_mem hx)
    . exact hkey hkeyd.symm
    . exact hkey (hkeyd.symm.trans heq)

theorem itemsDiffs_first (hnodup : (items.map Item.key).Nodup)
    : Exact (itemsDiffs (some other) true false items) (· ∈ items) (· = other) where
  nodup := nodup_itemsDiffs hnodup
  mem_iff := by
    intro d
    rw [mem_itemsDiffs hnodup]
    constructor
    . rintro (⟨x, hx, hne, rfl⟩ | ⟨hall, rfl⟩ | ⟨x, hx, heq, hdata, rfl⟩)
      . refine .removed x hx ?_
        rintro y rfl
        exact fun h => hne h.symm
      . exact .added other rfl hall
      . exact .modified x other hx rfl heq hdata
    intro hd
    cases hd with
    | removed x hx h => exact .inl ⟨x, hx, fun heq => h other rfl heq.symm, rfl⟩
    | added y hy h =>
      subst hy
      exact .inr (.inl ⟨h, rfl⟩)
    | modified x y hx hy hkey hdata =>
      subst hy
      exact .inr (.inr ⟨x, hx, hkey, hdata, rfl⟩)

theorem map_swap_itemsDiffs (items : List Item)
    : (itemsDiffs (some other) true false items).map DifferenceItem.swap
        = itemsDiffs (some other) false false items := by
  induction items with
  | nil => rfl
  | cons item items ih =>
    rw [itemsDiffs, itemsDiffs]
    split
    . rw [map_append, map_map, apply_ite (map DifferenceItem.swap)]
      rfl
    rw [map_cons, ih]
    rfl

theorem itemsDiffs_second (hnodup : (items.map Item.key).Nodup)
    : Exact (itemsDiffs (some other) false false items) (· = other) (· ∈ items) := by
  rw [← map_swap_itemsDiffs]
  exact (itemsDiffs_first hnodup).swap

theorem leaf (x y : Item) : Exact (leafDiffs x y) (· = x) (· = y) := by
  have hleaf : leafDiffs x y = itemsDiffs (some y) true false [x] := by
    by_cases hkey : x.key = y.key
    . simp [leafDiffs, itemsDiffs, hkey]
    . simp [leafDiffs, itemsDiffs, hkey]
  rw [hleaf]
  have hnodup : ([x].map Item.key).Nodup := nodup_singleton x.key
  apply (itemsDiffs_first hnodup).congr
  . exact fun _ => mem_singleton
  . exact fun _ => Iff.rfl

end Exact

section Trees

def HasItem (t : Trie) (x : Item) : Prop := x ∈ t.items.map itemOf

theorem hasItem_leaf : HasItem (.leaf k a) x ↔ x = itemOf (k, a) := by
  simp [HasItem]

theorem hasItem_inner : HasItem (.inner c) x ↔ ∃ i, HasItem (c i) x := by
  unfold HasItem
  simp only [mem_map, Tree.mem_items_inner]
  constructor
  . rintro ⟨y, ⟨i, hi⟩, hy⟩
    exact ⟨i, y, hi, hy⟩
  rintro ⟨i, y, hi, hy⟩
  exact ⟨y, ⟨i, hi⟩, hy⟩

theorem HasItem.digit (h : HasItem (c i) x) (hp : Tree.Placed getBranchAtDepth d (.inner c))
    : getBranchAtDepth x.key d = i := by
  obtain ⟨y, hy, rfl⟩ := mem_map.mp h
  exact hp.digit_eq hy

theorem nodup_items_reverse (h : Tree.Placed getBranchAtDepth d t)
    : ((t.items.reverse.map itemOf).map Item.key).Nodup := by
  rw [map_map, map_reverse, nodup_reverse]
  exact h.nodup_keys

theorem mem_reverse_iff : x ∈ t.items.reverse.map itemOf ↔ HasItem t x := by
  rw [map_reverse, mem_reverse]
  rfl

theorem Exact.same (h : Tree.Placed getBranchAtDepth d t) : Exact [] (HasItem t) (HasItem t) where
  nodup := nodup_nil
  mem_iff := by
    intro e
    constructor
    . intro he
      cases he
    intro he
    cases he with
    | removed x hx hother => exact absurd rfl (hother x hx)
    | added y hy hother => exact absurd rfl (hother y hy)
    | modified x y hx hy hkey hdata =>
      obtain ⟨⟨k, a⟩, ha, rfl⟩ := mem_map.mp hx
      obtain ⟨⟨k', a'⟩, ha', rfl⟩ := mem_map.mp hy
      cases (show k = k' from hkey)
      rw [h.item_unique ha ha'] at hdata
      exact absurd rfl hdata

theorem isDiff_inner_iff (hp : Tree.Placed getBranchAtDepth d (.inner c))
    (hp' : Tree.Placed getBranchAtDepth d (.inner c'))
    : IsDiff (HasItem (.inner c)) (HasItem (.inner c')) e
        ↔ ∃ i, IsDiff (HasItem (c i)) (HasItem (c' i)) e := by
  constructor
  . intro he
    cases he with
    | removed x hx h =>
      obtain ⟨i, hi⟩ := hasItem_inner.mp hx
      exact ⟨i, .removed x hi fun y hy => h y (hasItem_inner.mpr ⟨i, hy⟩)⟩
    | added y hy h =>
      obtain ⟨i, hi⟩ := hasItem_inner.mp hy
      exact ⟨i, .added y hi fun x hx => h x (hasItem_inner.mpr ⟨i, hx⟩)⟩
    | modified x y hx hy hkey hdata =>
      obtain ⟨i, hi⟩ := hasItem_inner.mp hx
      obtain ⟨j, hj⟩ := hasItem_inner.mp hy
      have hij : i = j := by
        rw [← hi.digit hp, ← hj.digit hp', hkey]
      subst hij
      exact ⟨i, .modified x y hi hj hkey hdata⟩
  rintro ⟨i, he⟩
  cases he with
  | removed x hx h =>
    refine .removed x (hasItem_inner.mpr ⟨i, hx⟩) ?_
    intro y hy heq
    obtain ⟨j, hj⟩ := hasItem_inner.mp hy
    have hij : j = i := by
      rw [← hj.digit hp', ← hx.digit hp, heq]
    subst hij
    exact h y hj heq
  | added y hy h =>
    refine .added y (hasItem_inner.mpr ⟨i, hy⟩) ?_
    intro x hx heq
    obtain ⟨j, hj⟩ := hasItem_inner.mp hx
    have hij : j = i := by
      rw [← hj.digit hp, ← hy.digit hp', heq]
    subst hij
    exact h x hj heq
  | modified x y hx hy hkey hdata =>
    exact .modified x y (hasItem_inner.mpr ⟨i, hx⟩) (hasItem_inner.mpr ⟨i, hy⟩) hkey hdata

variable [Sha512Half]

def branchDiffs (t u : Trie) : List DifferenceItem :=
  sideDiffs t u ++ if Deeper t u then pairDiffs t u else []

theorem pairDiffs_inner_perm (c c' : Fin branchFactor → Trie)
    : ((finRange branchFactor).flatMap fun i => branchDiffs (c i) (c' i)).Perm
        (pairDiffs (.inner c) (.inner c')) := by
  have hlater := (reverse_perm (finRange branchFactor)).flatMap_right
    fun i => if Deeper (c i) (c' i) then pairDiffs (c i) (c' i) else []
  have hsplit := flatMap_append_perm (finRange branchFactor)
    (fun i => sideDiffs (c i) (c' i))
    fun i => if Deeper (c i) (c' i) then pairDiffs (c i) (c' i) else []
  exact hsplit.symm.trans (hlater.symm.append_left _)

theorem Exact.inner (hp : Tree.Placed getBranchAtDepth d (.inner c))
    (hp' : Tree.Placed getBranchAtDepth d (.inner c'))
    (h : ∀ i, Exact (branchDiffs (c i) (c' i)) (HasItem (c i)) (HasItem (c' i)))
    : Exact (pairDiffs (.inner c) (.inner c')) (HasItem (.inner c)) (HasItem (.inner c')) := by
  refine Exact.perm ⟨?_, ?_⟩ (pairDiffs_inner_perm c c')
  . rw [map_flatMap, nodup_flatMap]
    refine ⟨fun i _ => (h i).nodup, ?_⟩
    refine (nodup_finRange branchFactor).imp_of_mem ?_
    intro i j _ _ hij
    simp only [Function.onFun, disjoint_left, mem_map, not_exists, not_and]
    rintro k ⟨e, he, rfl⟩ e' he' hkey
    -- the key of a difference below a branch has the digit of the branch
    have hdigit : ∀ {i e}, e ∈ branchDiffs (c i) (c' i) → getBranchAtDepth e.key d = i := by
      intro i e he
      obtain ⟨x, hx | hx, hkeyx⟩ := (((h i).mem_iff e).mp he).key_mem
      . rw [← hkeyx]
        exact hx.digit hp
      rw [← hkeyx]
      exact hx.digit hp'
    apply hij
    rw [← hdigit he, ← hdigit he', hkey]
  intro e
  rw [isDiff_inner_iff hp hp', mem_flatMap]
  simp only [(h _).mem_iff, mem_finRange, true_and]

theorem isNil_eq_false (h : t ≠ .nil) : (ofTrie t).isNil = false := by
  rw [← Bool.not_eq_true, isNil_ofTrie]
  exact h

theorem Exact.branch_of_pair (hp : Tree.Placed getBranchAtDepth d t)
    (ht : t.Compact) (hu : u.Compact) (hkt : Keyed t) (hku : Keyed u)
    (hfree : CollisionFree ((ofTrie t).preimages ++ (ofTrie u).preimages))
    (htn : t ≠ .nil) (hun : u ≠ .nil) (h : Exact (pairDiffs t u) (HasItem t) (HasItem u))
    : Exact (branchDiffs t u) (HasItem t) (HasItem u) := by
  have hside : sideDiffs t u = [] := by
    cases t with
    | nil => exact absurd rfl htn
    | leaf =>
      cases u with
      | nil => exact absurd rfl hun
      | leaf => rfl
      | inner => rfl
    | inner =>
      cases u with
      | nil => exact absurd rfl hun
      | leaf => rfl
      | inner => rfl
  unfold branchDiffs
  rw [hside, nil_append]
  split
  . exact h
  . next hdeeper =>
    have hhash : (ofTrie t).hash = (ofTrie u).hash := by
      by_contra hne
      exact hdeeper ⟨isNil_eq_false htn, isNil_eq_false hun, hne⟩
    rw [← eq_of_hash_eq ht hu hkt hku hfree hhash]
    exact Exact.same hp

theorem Exact.branch_nil_left (hp : Tree.Placed getBranchAtDepth d u)
    : Exact (branchDiffs .nil u) (HasItem .nil) (HasItem u) := by
  have hdeeper : ¬ Deeper .nil u := by
    rintro ⟨h, _⟩
    cases h
  unfold branchDiffs
  rw [if_neg hdeeper, append_nil]
  apply (Exact.right (nodup_items_reverse hp)).congr
  . intro x
    simp [HasItem]
  intro x
  exact mem_reverse_iff

theorem Exact.branch_nil_right (hp : Tree.Placed getBranchAtDepth d t)
    : Exact (branchDiffs t .nil) (HasItem t) (HasItem .nil) := by
  have hdeeper : ¬ Deeper t .nil := by
    rintro ⟨_, h, _⟩
    cases h
  have hside : sideDiffs t .nil = (t.items.reverse.map itemOf).map (unmatchedDiff true) := by
    cases t <;> rfl
  unfold branchDiffs
  rw [if_neg hdeeper, append_nil, hside]
  apply (Exact.left (nodup_items_reverse hp)).congr
  . intro x
    exact mem_reverse_iff
  intro x
  simp [HasItem]

theorem Exact.branch (hp : Tree.Placed getBranchAtDepth d t)
    (hp' : Tree.Placed getBranchAtDepth d u) (ht : t.Compact) (hu : u.Compact) (hkt : Keyed t)
    (hku : Keyed u) (hfree : CollisionFree ((ofTrie t).preimages ++ (ofTrie u).preimages))
    : Exact (branchDiffs t u) (HasItem t) (HasItem u) := by
  induction t generalizing u d with
  | nil => exact Exact.branch_nil_left hp'
  | leaf k a =>
    cases u with
    | nil => exact Exact.branch_nil_right hp
    | leaf k' a' =>
      apply Exact.branch_of_pair hp ht hu hkt hku hfree (by simp) (by simp)
      apply (Exact.leaf (itemOf (k, a)) (itemOf (k', a'))).congr
      . exact fun _ => hasItem_leaf.symm
      . exact fun _ => hasItem_leaf.symm
    | inner c' =>
      apply Exact.branch_of_pair hp ht hu hkt hku hfree (by simp) (by simp)
      apply (Exact.itemsDiffs_second (nodup_items_reverse hp')).congr
      . exact fun _ => hasItem_leaf.symm
      . exact fun _ => mem_reverse_iff
  | inner c ih =>
    cases u with
    | nil => exact Exact.branch_nil_right hp
    | leaf k' a' =>
      apply Exact.branch_of_pair hp ht hu hkt hku hfree (by simp) (by simp)
      apply (Exact.itemsDiffs_first (nodup_items_reverse hp)).congr
      . exact fun _ => mem_reverse_iff
      . exact fun _ => hasItem_leaf.symm
    | inner c' =>
      apply Exact.branch_of_pair hp ht hu hkt hku hfree (by simp) (by simp)
      apply Exact.inner hp hp'
      intro i
      exact ih i (hp.child i) (hp'.child i) (ht.child i) (hu.child i) (hkt.child i) (hku.child i)
        (hfree.child i)

end Trees

section

variable {sm sm' : SHAMap}

theorem collectDifference_eq (maxCount : Int) (d : DifferenceItem) (l : List DifferenceItem)
    : collectDifference maxCount d { differences := l, complete := true }
        = ((collectUpTo (decide (maxCount ≤ 0)) maxCount.toNat d l).1,
            {
              differences := (collectUpTo (decide (maxCount ≤ 0)) maxCount.toNat d l).2
              complete := true
            }) := by
  have hlimit : ((l.length + 1 : Nat) : Int) < maxCount ↔ l.length + 1 < maxCount.toNat := by
    omega
  simp only [collectDifference, collectUpTo, DifferenceSet.addDifference, DifferenceSet.len,
    length_append, length_singleton, hlimit, Bool.decide_or]

variable [Sha512Half]

def Held (sm : SHAMap) (x : Item) : Prop := sm.get x.key = .ok (some x)

def HashesKeys (sm : SHAMap) : Prop :=
  ∀ key leaf, sm.leafOf key = some leaf → leaf.kind? ≠ some .transaction

theorem Typed.held_iff (h : sm.Typed c) (x : Item) : sm.Held x ↔ HasItem (.inner c) x := by
  unfold Held HasItem
  rw [h.get_eq, Except.ok.injEq, Option.map_eq_some_iff, mem_map]
  constructor
  . rintro ⟨a, ha, hx⟩
    exact ⟨(x.key, a), (Tree.lookup_eq_some_iff h.canonical.1).mp ha, hx⟩
  rintro ⟨⟨k, a⟩, ha, rfl⟩
  exact ⟨a, (Tree.lookup_eq_some_iff h.canonical.1).mpr ha, rfl⟩

theorem Typed.keyed (h : sm.Typed c) (hkeys : sm.HashesKeys) : Keyed (.inner c) := by
  intro x hx
  have hkind := hkeys x.1 _ (h.leafOf_eq_some_iff.mpr hx)
  generalize hk : x.2.1 = kind
  cases kind with
  | accountState => rfl
  | transaction =>
    exfalso
    apply hkind
    rw [← hk]
    rfl
  | transactionWithMeta => rfl

theorem Holds.hashesKeys (h : sm.Holds c m) (htype : sm.mapType = .state) : sm.HashesKeys := by
  intro key leaf hleaf
  obtain ⟨a, _, hkind, hmem⟩ := h.repr.typed.kind?_of_leafOf hleaf
  rw [hkind, (h.repr.storable _ hmem).1, leafKind, htype]
  decide

def rootDiffs (c c' : Fin branchFactor → Trie) : List DifferenceItem :=
  if (rootOf c).hash = (rootOf c').hash then [] else pairDiffs (.inner c) (.inner c')

theorem diffUnsafe_eq (h : sm.Typed c) (h' : sm'.Typed c') (s : σ)
    : diffUnsafe emit sm sm' s = .ok (emitAll emit (rootDiffs c c') s) := by
  unfold diffUnsafe rootDiffs
  rw [h.root, h'.root]
  split
  . rfl
  have hstack : diffStack emit [(ofTrie (.inner c), ofTrie (.inner c'))] s = _ :=
    diffStack_nodes [(.inner c, .inner c')] (by simp [Entries]) s
  rw [flatMap_singleton] at hstack
  exact hstack

theorem compareContext_eq (h : sm.Typed c) (h' : sm'.Typed c') (hvalid : sm.state ≠ .invalid)
    (hvalid' : sm'.state ≠ .invalid) (maxCount : Int)
    : sm.compareContext sm' maxCount
        =
      .ok (if maxCount ≤ 0 then
        { differences := rootDiffs c c', complete := true }
      else
        {
          differences := (rootDiffs c c').take maxCount.toNat
          complete := decide ((rootDiffs c c').length < maxCount.toNat)
        }) := by
  have hstate : ¬ (sm.state = .invalid ∨ sm'.state = .invalid) := by
    simp [hvalid, hvalid']
  unfold compareContext
  rw [if_neg hstate, diffUnsafe_eq h h', emitAll_map (collectDifference_eq maxCount) _ []]
  by_cases hmax : maxCount ≤ 0
  . rw [if_pos hmax, decide_eq_true hmax, emitAll_collectUpTo_unlimited, nil_append]
  have hpos : ([] : List DifferenceItem).length < maxCount.toNat := by
    rw [length_nil]
    omega
  rw [if_neg hmax, decide_eq_false hmax, emitAll_collectUpTo_limited _ [] hpos, nil_append,
    length_nil, Nat.zero_add, Nat.sub_zero]

theorem exact_rootDiffs (h : sm.Typed c) (h' : sm'.Typed c') (hkeys : sm.HashesKeys)
    (hkeys' : sm'.HashesKeys)
    (hfree : CollisionFree (sm.root.toNode.preimages ++ sm'.root.toNode.preimages))
    : Exact (rootDiffs c c') sm.Held sm'.Held := by
  rw [h.root, h'.root] at hfree
  have hk := h.keyed hkeys
  have hk' := h'.keyed hkeys'
  have hexact : Exact (rootDiffs c c') (HasItem (.inner c)) (HasItem (.inner c')) := by
    unfold rootDiffs
    split
    . next hhash =>
      rw [← eq_of_hash_rootOf_eq h.canonical.2 h'.canonical.2 hk hk' hfree hhash]
      exact Exact.same h.canonical.1
    apply Exact.inner h.canonical.1 h'.canonical.1
    intro i
    exact Exact.branch (h.canonical.1.child i) (h'.canonical.1.child i) (h.canonical.2 i)
      (h'.canonical.2 i) (hk.child i) (hk'.child i) (CollisionFree.child hfree i)
  exact hexact.congr (fun x => (h.held_iff x).symm) fun x => (h'.held_iff x).symm

theorem CollisionFree.symm (h : CollisionFree (l ++ l')) : CollisionFree (l' ++ l) := by
  apply h.subset
  apply append_subset.mpr
  exact ⟨subset_append_right l l', subset_append_left l l'⟩

/--
The comparison of two maps whose leaves hash their keys lists every difference once.
-/
theorem compareContext_exact (hsm : ∃ c, sm.Typed c) (hsm' : ∃ c, sm'.Typed c)
    (hvalid : sm.state ≠ .invalid) (hvalid' : sm'.state ≠ .invalid) (hkeys : sm.HashesKeys)
    (hkeys' : sm'.HashesKeys)
    (hfree : CollisionFree (sm.root.toNode.preimages ++ sm'.root.toNode.preimages))
    : ∃ l l', (∀ maxCount, maxCount ≤ 0 →
          sm.compareContext sm' maxCount = .ok { differences := l, complete := true })
        ∧ (∀ maxCount, maxCount ≤ 0 →
          sm'.compareContext sm maxCount = .ok { differences := l', complete := true })
        ∧ Exact l sm.Held sm'.Held
        ∧ l'.Perm (l.map swap)
        ∧ ∀ maxCount, 0 < maxCount → ∃ complete,
            sm.compareContext sm' maxCount
              = .ok { differences := l.take maxCount.toNat, complete := complete } := by
  obtain ⟨c, h⟩ := hsm
  obtain ⟨c', h'⟩ := hsm'
  have hexact := exact_rootDiffs h h' hkeys hkeys' hfree
  refine ⟨rootDiffs c c', rootDiffs c' c, ?_, ?_, hexact, ?_, ?_⟩
  . intro maxCount hmax
    rw [compareContext_eq h h' hvalid hvalid', if_pos hmax]
  . intro maxCount hmax
    rw [compareContext_eq h' h hvalid' hvalid, if_pos hmax]
  . exact (exact_rootDiffs h' h hkeys' hkeys hfree.symm).unique hexact.swap
  intro maxCount hmax
  rw [compareContext_eq h h' hvalid hvalid', if_neg (Int.not_le.mpr hmax)]
  exact ⟨_, rfl⟩

theorem held_putWithNodeType_new (mapType : MapType) (key : Hash256) (data : List UInt8)
    (nodeType : NodeType) (hlen : 12 ≤ data.length)
    (hleaf : createLeafNode nodeType { key, data } = .ok (leafNode key (kind, data))) (x : Item)
    : Held ((new mapType).putWithNodeType key data nodeType).2 x ↔ x = { key, data } := by
  obtain ⟨c, hput, hreached, hitems⟩ := (Reached.new mapType).putItemWithNodeType_ok hlen hleaf
  have heq : ((new mapType).putWithNodeType key data nodeType).2 = { new mapType with root := rootOf c } := by
    rw [← hput]
    rfl
  rw [heq, hreached.typed.held_iff]
  unfold HasItem
  rw [mem_map]
  constructor
  . rintro ⟨y, hy, rfl⟩
    rcases (hitems y).mp hy with rfl | ⟨hy, _⟩
    . rfl
    . simp at hy
  rintro rfl
  exact ⟨_, (hitems _).mpr (.inl rfl), rfl⟩

end

namespace Sample

abbrev sha512Half : Sha512Half where
  sum bytes :=
    (Vector.replicate 32 1).set 0 (bytes.foldl (fun h b => h * 31 + b) 7) Hash256.size_pos

attribute [local instance] sha512Half

def otherKey : Hash256 := (Vector.replicate 32 0).set 0 1 Hash256.size_pos

def first : SHAMap := (new .state).run [.put (.replicate 32 0) data, .put otherKey data]

def second : SHAMap := (new .state).run [.put otherKey data]

theorem compareContext_exact_put
    : ∃ l l', (∀ maxCount, maxCount ≤ 0 →
          first.compareContext second maxCount = .ok { differences := l, complete := true })
        ∧ (∀ maxCount, maxCount ≤ 0 →
          second.compareContext first maxCount = .ok { differences := l', complete := true })
        ∧ Exact l first.Held second.Held
        ∧ l'.Perm (l.map swap)
        ∧ ∀ maxCount, 0 < maxCount → ∃ complete,
            first.compareContext second maxCount
              = .ok { differences := l.take maxCount.toNat, complete := complete } := by
  obtain ⟨c, h⟩ := (holds_new .state).run [.put (.replicate 32 0) data, .put otherKey data]
  obtain ⟨c', h'⟩ := (holds_new .state).run [.put otherKey data]
  apply compareContext_exact ⟨c, h.repr.typed⟩ ⟨c', h'.repr.typed⟩
  . decide +kernel
  . decide +kernel
  . exact h.hashesKeys (by decide +kernel)
  . exact h'.hashesKeys (by decide +kernel)
  . decide +kernel

theorem compareContext_without_keys
    : (let sm := ((new .state).putWithNodeType (.replicate 32 0) data .transactionNoMeta).2
       let sm' := ((new .state).putWithNodeType otherKey data .transactionNoMeta).2
       CollisionFree (sm.root.toNode.preimages ++ sm'.root.toNode.preimages)
         ∧ sm.compareContext sm' 0 = .ok { differences := [], complete := true }
         ∧ ¬ Exact [] sm.Held sm'.Held)
      ∧ ({ new .state with state := .invalid } : SHAMap).compareContext (new .state) 0
          = .error (.context .errInvalidState "cannot compare invalid SHAMaps") := by
  refine ⟨⟨by decide +kernel, ?_, ?_⟩, rfl⟩
  . have hhash : ((new .state).putWithNodeType (.replicate 32 0) data .transactionNoMeta).2.root.hash
        = ((new .state).putWithNodeType otherKey data .transactionNoMeta).2.root.hash := by
      decide +kernel
    unfold compareContext diffUnsafe
    rw [if_neg (by decide +kernel), if_pos hhash]
  intro hexact
  have hfirst := held_putWithNodeType_new .state (.replicate 32 0) data .transactionNoMeta
    (by decide) rfl
  have hsecond := held_putWithNodeType_new .state otherKey data .transactionNoMeta (by decide) rfl
  refine absurd ((hexact.mem_iff _).mpr (.removed _ ((hfirst _).mpr rfl) ?_)) List.not_mem_nil
  intro y hy
  rw [(hsecond y).mp hy]
  decide

end Sample

end SHAMap
