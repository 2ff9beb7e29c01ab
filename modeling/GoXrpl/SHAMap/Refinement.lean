import GoXrpl.SHAMap.Lemmas.Mutation

/-!
This module contains the finite map that a SHAMap implements.
-/

open List Function

namespace SHAMap

open Radix

abbrev Contents := Hash256 → Option (List UInt8)

inductive Op where
  | put (key : Hash256) (data : List UInt8)
  | putItemsAtomically (items : List (Option Item))
  | delete (key : Hash256)

def Addable : Option Item → Prop
  | none => False
  | some item => 12 ≤ item.data.length

instance (item : Option Item) : Decidable (Addable item) :=
  match item with
  | none => inferInstanceAs (Decidable False)
  | some item => inferInstanceAs (Decidable (12 ≤ item.data.length))

namespace Contents

def insert (m : Contents) (item : Item) : Contents := update m item.key (some item.data)

def update (m : Contents) : Op → Contents
  | .put key data => if 12 ≤ data.length then m.insert { key, data } else m
  | .putItemsAtomically items =>
    if ∀ item ∈ items, Addable item then
      (items.filterMap id).foldl insert m
    else
      m
  | .delete key => Function.update m key none

end Contents

variable [Sha512Half]

def Op.exec (sm : SHAMap) : Op → Except Error Unit × SHAMap
  | .put key data => sm.put key data
  | .putItemsAtomically items => sm.putItemsAtomically items
  | .delete key => sm.delete key

def run (sm : SHAMap) (ops : List Op) : SHAMap := ops.foldl (fun sm op => (op.exec sm).2) sm

def IsNextAbove (m : Contents) (id : Hash256) (item : Item) : Prop :=
  m item.key = some item.data ∧ id < item.key
    ∧ ∀ key, (m key).isSome → id < key → item.key ≤ key

def IsNextBelow (m : Contents) (id : Hash256) (item : Item) : Prop :=
  m item.key = some item.data ∧ item.key < id
    ∧ ∀ key, (m key).isSome → key < id → key ≤ item.key

def collect (sm : SHAMap) : Nat → Iterator → List Item × Iterator
  | 0, it => ([], it)
  | n + 1, it =>
    match sm.next it with
    | (false, it) => ([], it)
    | (true, it) =>
      let (items, last) := sm.collect n it
      (it.current.toList ++ items, last)

structure Holds (sm : SHAMap) (c : Fin branchFactor → Trie) (m : Contents) : Prop where
  repr : sm.Represents c
  state : sm.state = .modifying
  contents : ∀ key data, m key = some data ↔ (key, sm.leafKind, data) ∈ (Tree.inner c).items

namespace Holds

variable {sm : SHAMap}

theorem mem_items_iff (h : sm.Holds c m)
    : x ∈ (Tree.inner c).items ↔ x.2.1 = sm.leafKind ∧ m x.1 = some x.2.2 := by
  constructor
  . intro hx
    have hkind := (h.repr.storable x hx).1
    refine ⟨hkind, (h.contents _ _).mpr ?_⟩
    rwa [← hkind]
  rintro ⟨hkind, hm⟩
  have := (h.contents _ _).mp hm
  rwa [← hkind] at this

section

variable (h : sm.Holds c m)

include h

theorem not_mem_of_none (hm : m key = none) (a : LeafKind × List UInt8)
    : (key, a) ∉ (Tree.inner c).items := by
  rw [h.mem_items_iff, hm]
  simp

theorem with_root (hcanonical : Tree.Canonical getBranchAtDepth (.inner c'))
    (hitems : ∀ x, x ∈ (Tree.inner c').items ↔ x.2.1 = sm.leafKind ∧ m' x.1 = some x.2.2)
    (hlen : ∀ key data, m' key = some data → 12 ≤ data.length)
    : Holds { sm with root := rootOf c' } c' m' where
  repr :=
    {
      root := rfl
      canonical := hcanonical
      storable := by
        intro x hx
        obtain ⟨hkind, hm⟩ := (hitems x).mp hx
        exact ⟨hkind, hlen _ _ hm⟩
    }
  state := h.state
  contents := by
    intro key data
    rw [hitems]
    simp [leafKind]

theorem length_le (hm : m key = some data) : 12 ≤ data.length :=
  (h.repr.storable _ ((h.contents key data).mp hm)).2

theorem putItemUnsafe (item : Item) (hlen : 12 ≤ item.data.length)
    : ∃ c', sm.putItemUnsafe item = (.ok (), { sm with root := rootOf c' })
        ∧ Holds { sm with root := rootOf c' } c' (m.insert item) := by
  obtain ⟨c', hput, hinsert⟩ := putItemUnsafe_eq_ok h.repr.typed h.state hlen
  refine ⟨c', hput, ?_⟩
  apply h.with_root
  . rw [hinsert]
    exact h.repr.canonical.insert separates_getBranchAtDepth
  . intro x
    rw [hinsert, Tree.mem_items_insert separates_getBranchAtDepth h.repr.canonical.1
      (Tree.below_zero _ _), h.mem_items_iff]
    obtain ⟨k, kind, data⟩ := x
    by_cases hk : k = item.key
    . subst hk
      simp [Contents.insert, eq_comm]
    . simp [Contents.insert, hk]
  intro key data hm
  by_cases hk : key = item.key
  . subst hk
    simp only [Contents.insert, update_self, Option.some.injEq] at hm
    rwa [← hm]
  simp only [Contents.insert, update_of_ne hk] at hm
  exact h.length_le hm

theorem put (key : Hash256) (data : List UInt8)
    : ∃ c', Holds (sm.put key data).2 c' (m.update (.put key data)) := by
  unfold SHAMap.put
  simp only [h.state, ne_eq, not_true, if_false, Contents.update]
  split
  . next hlen =>
    obtain ⟨c', hput, hholds⟩ := h.putItemUnsafe { key, data } hlen
    rw [hput]
    exact ⟨c', hholds⟩
  . next hlen =>
    obtain ⟨err, hput⟩ := putItemUnsafe_eq_error h.repr.typed { key, data } (Nat.lt_of_not_le hlen)
    rw [hput]
    exact ⟨c, h⟩

theorem putStaged_eq_ok (hall : ∀ item ∈ items, Addable item)
    : ∃ c', sm.putStaged items = .ok { sm with root := rootOf c' }
        ∧ Holds { sm with root := rootOf c' } c' ((items.filterMap id).foldl Contents.insert m) := by
  induction items generalizing sm c m with
  | nil =>
    have hroot : sm = { sm with root := rootOf c } := by
      rw [← h.repr.root]
    exact ⟨c, by rw [← hroot]; rfl, by rwa [← hroot]⟩
  | cons item items ih =>
    rw [forall_mem_cons] at hall
    cases item with
    | none => exact hall.1.elim
    | some item =>
      obtain ⟨c', hput, hholds⟩ := h.putItemUnsafe item hall.1
      rw [SHAMap.putStaged, hput]
      exact ih hholds hall.2

theorem putStaged_eq_error (hbad : ¬ ∀ item ∈ items, Addable item)
    : ∃ err, sm.putStaged items = .error err := by
  induction items generalizing sm c m with
  | nil => simp at hbad
  | cons item items ih =>
    rw [forall_mem_cons] at hbad
    cases item with
    | none => exact ⟨_, rfl⟩
    | some item =>
      rw [SHAMap.putStaged]
      by_cases hlen : 12 ≤ item.data.length
      . obtain ⟨c', hput, hholds⟩ := h.putItemUnsafe item hlen
        rw [hput]
        exact ih hholds fun hall => hbad ⟨hlen, hall⟩
      obtain ⟨err, hput⟩ := putItemUnsafe_eq_error h.repr.typed item (Nat.lt_of_not_le hlen)
      rw [hput]
      exact ⟨err, rfl⟩

theorem putItemsAtomically (items : List (Option Item))
    : ∃ c', Holds (sm.putItemsAtomically items).2 c' (m.update (.putItemsAtomically items)) := by
  have hsame : { sm with state := .modifying } = sm := by
    rw [← h.state]
  have hstate : ¬ sm.state ≠ .modifying := not_not.mpr h.state
  unfold SHAMap.putItemsAtomically
  rw [if_neg hstate, hsame, Contents.update]
  by_cases hall : ∀ item ∈ items, Addable item
  . obtain ⟨c', hput, hholds⟩ := h.putStaged_eq_ok hall
    rw [hput, if_pos hall]
    exact ⟨c', hholds⟩
  obtain ⟨err, hput⟩ := h.putStaged_eq_error hall
  rw [hput, if_neg hall]
  exact ⟨c, h⟩

theorem delete_of_none (hm : m key = none) : sm.delete key = (.error .errItemNotFound, sm) :=
  delete_eq_error h.repr.typed h.state (h.not_mem_of_none hm)

theorem delete_of_some (hm : m key = some data)
    : ∃ c', sm.delete key = (.ok (), { sm with root := rootOf c' })
        ∧ Holds { sm with root := rootOf c' } c' (m.update (.delete key)) := by
  have hmem := (h.contents key data).mp hm
  obtain ⟨c', hdel, herase⟩ := delete_eq_ok h.repr.typed h.state hmem
  refine ⟨c', hdel, ?_⟩
  apply h.with_root
  . rw [herase]
    exact h.repr.canonical.eraseRootWith
  . intro x
    rw [herase, h.repr.canonical.mem_items_eraseRootWith sm.retype_retype ⟨_, hmem⟩,
      Tree.kept_iff_of_fixed h.repr.retype_eq, h.mem_items_iff]
    by_cases hk : x.1 = key
    . simp [Contents.update, hk]
    . simp [Contents.update, hk]
  intro key' data' hm'
  by_cases hk : key' = key
  . subst hk
    simp [Contents.update] at hm'
  simp only [Contents.update, Function.update_of_ne hk] at hm'
  exact h.length_le hm'

theorem delete (key : Hash256) : ∃ c', Holds (sm.delete key).2 c' (m.update (.delete key)) := by
  cases hm : m key with
  | none =>
    rw [h.delete_of_none hm]
    have hsame : m.update (.delete key) = m := by
      rw [Contents.update, ← hm, update_eq_self]
    rw [hsame]
    exact ⟨c, h⟩
  | some data =>
    obtain ⟨c', hdel, hholds⟩ := h.delete_of_some hm
    rw [hdel]
    exact ⟨c', hholds⟩

theorem exec (op : Op) : ∃ c', Holds (op.exec sm).2 c' (m.update op) := by
  cases op with
  | put key data => exact h.put key data
  | putItemsAtomically items => exact h.putItemsAtomically items
  | delete key => exact h.delete key

theorem run (ops : List Op) : ∃ c', Holds (sm.run ops) c' (ops.foldl Contents.update m) := by
  induction ops generalizing sm c m with
  | nil => exact ⟨c, h⟩
  | cons op ops ih =>
    obtain ⟨c', hexec⟩ := h.exec op
    exact ih hexec

theorem lookup_eq (key : Hash256)
    : ((Tree.inner c).lookup getBranchAtDepth key 0).map Prod.snd = m key := by
  have hplaced := h.repr.canonical.1
  cases hl : (Tree.inner c).lookup getBranchAtDepth key 0 with
  | none =>
    rw [Tree.lookup_eq_none_iff hplaced] at hl
    cases hm : m key with
    | none => rfl
    | some data => exact absurd ((h.contents key data).mp hm) (hl _)
  | some a =>
    rw [Tree.lookup_eq_some_iff hplaced, h.mem_items_iff] at hl
    exact hl.2.symm

theorem get_eq (key : Hash256) : sm.get key = .ok ((m key).map fun data => { key, data }) := by
  rw [h.repr.typed.get_eq, ← h.lookup_eq key, Option.map_map]
  rfl

theorem has_eq (key : Hash256) : sm.has key = .ok (m key).isSome := by
  have hget : sm.findItem key = _ := h.get_eq key
  unfold SHAMap.has
  rw [hget]
  simp [Except.map]

end

def listing (c : Fin branchFactor → Trie) : List Item := (Tree.inner c).items.map itemOf

theorem mem_listing_iff (h : sm.Holds c m) : item ∈ listing c ↔ m item.key = some item.data := by
  unfold listing
  rw [mem_map]
  constructor
  . rintro ⟨x, hx, rfl⟩
    exact (h.mem_items_iff.mp hx).2
  intro hm
  exact ⟨(item.key, sm.leafKind, item.data), (h.contents _ _).mp hm, rfl⟩

theorem listing_sorted (h : sm.Holds c m) : (listing c).Pairwise fun a b => a.key < b.key := by
  unfold listing
  rw [pairwise_map]
  exact h.repr.canonical.1.sorted lexicographic_getBranchAtDepth

theorem forEach_eq (h : sm.Holds c m) (fn : Item → σ → Bool × σ) (s : σ)
    : sm.forEach fn s = (visit fn (listing c) s).2 := by
  unfold SHAMap.forEach listing
  rw [h.repr.root, ← ofTrie_inner, walkLeavesRec_ofTrie]

theorem upperBoundUnsafe_eq (h : sm.Holds c m) (id : Hash256)
    : sm.upperBoundUnsafe id = .ok ((listing c).find? fun item => id < item.key) := by
  obtain ⟨stack, hwalk, hupper, _⟩ :=
    pop_walkBoundStack newRootNodeID [] (onPath_root h.repr.canonical id) (by simp)
  have hnext := Tree.nextAbove_eq_find? lexicographic_getBranchAtDepth h.repr.canonical.1
    (Tree.below_zero id (.inner c))
  unfold SHAMap.upperBoundUnsafe walkBoundStack listing
  rw [h.repr.root, ← ofTrie_inner, hwalk]
  refine hupper.trans ?_
  rw [find?_map, show (newRootNodeID).depth = 0 from rfl, hnext]
  exact foundOr_ok_none _

theorem lowerBoundUnsafe_eq (h : sm.Holds c m) (id : Hash256)
    : sm.lowerBoundUnsafe id = .ok ((listing c).reverse.find? fun item => item.key < id) := by
  obtain ⟨stack, hwalk, _, hlower⟩ :=
    pop_walkBoundStack newRootNodeID [] (onPath_root h.repr.canonical id) (by simp)
  have hnext := Tree.nextBelow_eq_find? lexicographic_getBranchAtDepth h.repr.canonical.1
    (Tree.below_zero id (.inner c))
  unfold SHAMap.lowerBoundUnsafe walkBoundStack listing
  rw [h.repr.root, ← ofTrie_inner, hwalk]
  refine hlower.trans ?_
  rw [← map_reverse, find?_map, show (newRootNodeID).depth = 0 from rfl, hnext]
  exact foundOr_ok_none _

theorem forall_listing_iff (h : sm.Holds c m) {P : Hash256 → Prop}
    : (∀ item ∈ listing c, P item.key) ↔ ∀ key, (m key).isSome → P key := by
  constructor
  . intro hall key hsome
    obtain ⟨data, hm⟩ := Option.isSome_iff_exists.mp hsome
    exact hall { key, data } (h.mem_listing_iff.mpr hm)
  intro hall item hitem
  apply hall
  rw [h.mem_listing_iff.mp hitem]
  rfl

theorem upperBound_spec (h : sm.Holds c m) (id : Hash256)
    : (sm.upperBound id).err = none
        ∧ (∀ item, (sm.upperBound id).current = some item ↔ IsNextAbove m id item)
        ∧ ((sm.upperBound id).current = none ↔ ∀ key, (m key).isSome → ¬ id < key) := by
  unfold SHAMap.upperBound
  rw [h.upperBoundUnsafe_eq]
  refine ⟨rfl, ?_, ?_⟩
  . intro item
    show (listing c).find? _ = some item ↔ _
    rw [find?_eq_some_iff_of_pairwise lexicographic_getBranchAtDepth.asymm h.listing_sorted,
      h.mem_listing_iff, decide_eq_true_eq]
    simp only [decide_eq_true_eq]
    rw [h.forall_listing_iff (P := fun key => id < key → ¬ key < item.key)]
    rfl
  show (listing c).find? _ = none ↔ _
  rw [find?_eq_none]
  simp only [decide_eq_true_eq]
  exact h.forall_listing_iff (P := fun key => ¬ id < key)

theorem lowerBound_spec (h : sm.Holds c m) (id : Hash256)
    : (sm.lowerBound id).err = none
        ∧ (∀ item, (sm.lowerBound id).current = some item ↔ IsNextBelow m id item)
        ∧ ((sm.lowerBound id).current = none ↔ ∀ key, (m key).isSome → ¬ key < id) := by
  have hsorted := pairwise_reverse.mpr h.listing_sorted
  unfold SHAMap.lowerBound
  rw [h.lowerBoundUnsafe_eq]
  refine ⟨rfl, ?_, ?_⟩
  . intro item
    show (listing c).reverse.find? _ = some item ↔ _
    rw [find?_eq_some_iff_of_pairwise lexicographic_getBranchAtDepth.asymm hsorted,
      mem_reverse, h.mem_listing_iff, decide_eq_true_eq]
    simp only [decide_eq_true_eq, mem_reverse]
    rw [h.forall_listing_iff (P := fun key => key < id → ¬ item.key < key)]
    rfl
  show (listing c).reverse.find? _ = none ↔ _
  rw [find?_eq_none]
  simp only [decide_eq_true_eq, mem_reverse]
  exact h.forall_listing_iff (P := fun key => ¬ key < id)

theorem next_eq (h : sm.Holds c m) (item : Item)
    : sm.next { current := some item, err := none }
        = (((listing c).find? fun item' => item.key < item'.key).isSome,
            { current := (listing c).find? fun item' => item.key < item'.key, err := none }) := by
  simp [SHAMap.next, h.upperBoundUnsafe_eq]

theorem collect_eq (h : sm.Holds c m) (item : Item)
    (hn : ((listing c).filter fun item' => item.key < item'.key).length < n)
    : sm.collect n { current := some item, err := none }
        = ((listing c).filter fun item' => item.key < item'.key, { current := none, err := none }) := by
  have hsplit : ∀ item : Item, ((listing c).filter fun item' => item.key < item'.key) = _ :=
    fun item => filter_eq_find?_cons (q := fun item' => decide (item.key < item'.key))
      lexicographic_getBranchAtDepth.asymm h.listing_sorted (by
        intro a b ha hb
        simp only [decide_eq_true_eq] at ha ⊢
        exact lexicographic_getBranchAtDepth.trans ha hb)
  induction n generalizing item with
  | zero => omega
  | succ n ih =>
    rw [SHAMap.collect, h.next_eq, hsplit]
    rw [hsplit] at hn
    cases hfind : (listing c).find? fun item' => item.key < item'.key with
    | none => rfl
    | some next =>
      simp only [hfind, length_cons] at hn
      simp only [Option.isSome_some]
      rw [ih next (by omega)]
      rfl

end Holds

theorem holds_new (mapType : MapType) : Holds (new mapType) Tree.noChildren fun _ => none where
  repr :=
    {
      root := newInnerNode_eq_rootOf
      canonical := ⟨fun _ => ⟨by simp, trivial⟩, fun _ => trivial⟩
      storable := by simp
    }
  state := rfl
  contents := by simp

/--
A map reached by any operations behaves as the finite map with the same updates.
-/
theorem run_refines_contents (mapType : MapType) (ops : List Op)
    : let sm := (new mapType).run ops
      let m : Contents := ops.foldl Contents.update fun _ => none
      (∀ key, sm.get key = .ok ((m key).map fun data => { key, data })
          ∧ sm.has key = .ok (m key).isSome)
        ∧ (∀ key, (m key = none → sm.delete key = (.error .errItemNotFound, sm))
          ∧ (m key ≠ none → (sm.delete key).1 = .ok ()))
        ∧ (∀ id, (sm.upperBound id).err = none
          ∧ (∀ item, (sm.upperBound id).current = some item ↔ IsNextAbove m id item)
          ∧ ((sm.upperBound id).current = none ↔ ∀ key, (m key).isSome → ¬ id < key))
        ∧ (∀ id, (sm.lowerBound id).err = none
          ∧ (∀ item, (sm.lowerBound id).current = some item ↔ IsNextBelow m id item)
          ∧ ((sm.lowerBound id).current = none ↔ ∀ key, (m key).isSome → ¬ key < id))
        ∧ ∃ items : List Item, items.Pairwise (fun a b => a.key < b.key)
          ∧ (∀ item, item ∈ items ↔ m item.key = some item.data)
          ∧ (∀ (σ : Type) (fn : Item → σ → Bool × σ) (s : σ),
              sm.forEach fn s = (visit fn items s).2)
          ∧ ∀ item n, items.length < n →
              sm.collect n { current := some item, err := none }
                = (items.filter fun item' => item.key < item'.key,
                    { current := none, err := none }) := by
  obtain ⟨c, h⟩ := (holds_new mapType).run ops
  refine ⟨?_, ?_, h.upperBound_spec, h.lowerBound_spec, ?_⟩
  . intro key
    exact ⟨h.get_eq key, h.has_eq key⟩
  . intro key
    refine ⟨h.delete_of_none, ?_⟩
    intro hm
    obtain ⟨data, hdata⟩ := Option.ne_none_iff_exists'.mp hm
    obtain ⟨_, hdel, _⟩ := h.delete_of_some hdata
    rw [hdel]
  refine ⟨Holds.listing c, h.listing_sorted, fun _ => h.mem_listing_iff, ?_, ?_⟩
  . intro σ fn s
    exact h.forEach_eq fn s
  intro item n hn
  apply h.collect_eq
  exact Nat.lt_of_le_of_lt (length_filter_le _ _) hn

end SHAMap
