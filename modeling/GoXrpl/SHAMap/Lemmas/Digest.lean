import GoXrpl.SHAMap.Lemmas.Node

open List SHAMap.InnerNode

namespace SHAMap

open Radix

def leafPreimage (kind : LeafKind) (item : Item) : List UInt8 :=
  if kind.keyOnWire then
    kind.hashPrefix ++ item.data ++ item.key.toList
  else
    kind.hashPrefix ++ item.data

def Node.preimages : Node → List (List UInt8)
  | .nil => []
  | .leaf kind item _ => [leafPreimage kind item]
  | .inner children hashes isBranch hash =>
    (if isBranch = 0 then [] else [preimage ⟨children, hashes, isBranch, hash⟩])
      ++ (List.finRange branchFactor).flatMap fun i => (children i).preimages

section

variable [Sha512Half]

def digest : Option (List UInt8) → Hash256
  | none => Hash256.zero
  | some bytes => Sha512Half.sum bytes

def CollisionFree (l : List (List UInt8)) : Prop :=
  ∀ x ∈ none :: l.map some, ∀ y ∈ none :: l.map some, digest x = digest y → x = y

instance (l : List (List UInt8)) : Decidable (CollisionFree l) :=
  inferInstanceAs (Decidable (∀ x ∈ _, ∀ y ∈ _, _))

theorem CollisionFree.subset (h : CollisionFree l) (hsub : l' ⊆ l) : CollisionFree l' := by
  have hmem : ∀ x ∈ none :: l'.map some, x ∈ none :: l.map some :=
    cons_subset_cons none (map_subset some hsub)
  intro x hx y hy
  exact h x (hmem x hx) y (hmem y hy)

def preimageOf : Trie → Option (List UInt8)
  | .nil => none
  | .leaf k a => some (leafPreimage a.1 { key := k, data := a.2 })
  | .inner c => if (rootOf c).isBranch = 0 then none else some (rootOf c).preimage

theorem preimageOf_inner (c : Fin branchFactor → Trie)
    : preimageOf (.inner c)
        = if (rootOf c).isBranch = 0 then none else some (rootOf c).preimage := rfl

theorem leafHash_eq (kind : LeafKind) (item : Item)
    : leafHash kind item = Sha512Half.sum (leafPreimage kind item) := by
  unfold leafHash leafPreimage
  split <;> rfl

theorem preimage_updateHashUnsafe (n : InnerNode) : n.updateHashUnsafe.preimage = n.preimage := by
  unfold preimage childPreimageHash
  simp

theorem hash_updateHashUnsafe (n : InnerNode)
    : n.updateHashUnsafe.hash = digest (if n.isBranch = 0 then none else some n.preimage) := by
  unfold updateHashUnsafe
  split <;> rfl

theorem hash_rootOf (c : Fin branchFactor → Trie)
    : (rootOf c).hash = digest (preimageOf (.inner c)) := by
  simp only [rootOf, ofChildren, hash_updateHashUnsafe, preimageOf,
    preimage_updateHashUnsafe, updateHashUnsafe_isBranch]

theorem hash_ofTrie (t : Trie) : (ofTrie t).hash = digest (preimageOf t) := by
  cases t with
  | nil => rfl
  | leaf k a => exact leafHash_eq _ _
  | inner c => exact hash_rootOf c

theorem preimageOf_mem (t : Trie) : preimageOf t ∈ none :: (ofTrie t).preimages.map some := by
  cases t with
  | nil => exact mem_cons_self
  | leaf k a => exact mem_cons_of_mem _ mem_cons_self
  | inner c =>
    rw [preimageOf_inner]
    split
    . exact mem_cons_self
    . next hbranch =>
      apply mem_cons_of_mem
      rw [ofTrie_inner, toNode, Node.preimages, if_neg hbranch]
      exact mem_cons_self

theorem preimages_child_subset (c : Fin branchFactor → Trie) (i : Fin branchFactor)
    : (ofTrie (c i)).preimages ⊆ (ofTrie (.inner c)).preimages := by
  intro bytes hbytes
  rw [ofTrie_inner, toNode, Node.preimages, mem_append]
  right
  rw [mem_flatMap]
  refine ⟨i, mem_finRange i, ?_⟩
  rwa [rootOf, ofChildren_children]

theorem CollisionFree.child
    (h : CollisionFree ((ofTrie (.inner c)).preimages ++ (ofTrie (.inner c')).preimages))
    (i : Fin branchFactor)
    : CollisionFree ((ofTrie (c i)).preimages ++ (ofTrie (c' i)).preimages) := by
  apply h.subset
  apply append_subset.mpr
  constructor
  . apply subset_append_of_subset_left
    exact preimages_child_subset c i
  apply subset_append_of_subset_right
  exact preimages_child_subset c' i

theorem CollisionFree.preimageOf_eq
    (hfree : CollisionFree ((ofTrie t).preimages ++ (ofTrie u).preimages))
    (h : (ofTrie t).hash = (ofTrie u).hash)
    : preimageOf t = preimageOf u := by
  rw [hash_ofTrie, hash_ofTrie] at h
  apply hfree _ _ _ _ h
  . exact cons_subset_cons none (map_subset some (subset_append_left _ _))
      (preimageOf_mem t)
  exact cons_subset_cons none (map_subset some (subset_append_right _ _))
    (preimageOf_mem u)

end

def Keyed (t : Trie) : Prop := ∀ x ∈ t.items, x.2.1.keyOnWire = true

theorem Keyed.child (h : Keyed (.inner c)) (i : Fin branchFactor) : Keyed (c i) :=
  fun x hx => h x (Tree.mem_items_inner.mpr ⟨i, hx⟩)

theorem leafPreimage_inj (hkeyed : kind.keyOnWire = true)
    (hkeyed' : kind'.keyOnWire = true) (h : leafPreimage kind item = leafPreimage kind' item')
    : kind = kind' ∧ item = item' := by
  unfold leafPreimage at h
  rw [if_pos hkeyed, if_pos hkeyed', append_assoc, append_assoc] at h
  have hprefix : kind.hashPrefix.length = kind'.hashPrefix.length := by
    cases kind <;> cases kind' <;> rfl
  obtain ⟨hkind, hrest⟩ := append_inj h hprefix
  obtain ⟨hdata, hkey⟩ := append_inj' hrest (by simp)
  constructor
  . revert hkind
    cases kind <;> cases kind' <;> decide
  cases item
  cases item'
  simp only [Item.mk.injEq]
  exact ⟨Vector.toList_inj.mp hkey, hdata⟩

theorem flatMap_inj {ι α : Type} {f g : ι → List α} (hlen : ∀ i, (f i).length = (g i).length)
    {is : List ι} (h : is.flatMap f = is.flatMap g)
    : ∀ i ∈ is, f i = g i := by
  induction is with
  | nil =>
    intro i hi
    cases hi
  | cons j is ih =>
    rw [flatMap_cons, flatMap_cons] at h
    obtain ⟨hhead, htail⟩ := append_inj h (hlen j)
    intro i hi
    cases hi with
    | head => exact hhead
    | tail _ hi => exact ih htail i hi

section

variable [Sha512Half]

theorem preimage_rootOf (c : Fin branchFactor → Trie)
    : (rootOf c).preimage
        = hashPrefixInnerNode ++ (finRange branchFactor).flatMap fun i =>
            (ofTrie (c i)).hash.toList := by
  unfold preimage
  congr 2
  funext i
  rw [rootOf, ofChildren_isBranch, getLsbD_occupancy]
  unfold childPreimageHash
  rw [ofChildren_children]
  cases c i with
  | nil => rfl
  | leaf => rfl
  | inner => rfl

theorem isBranch_rootOf_eq_zero_iff (c : Fin branchFactor → Trie)
    : (rootOf c).isBranch = 0 ↔ ∀ i, c i = .nil := by
  rw [rootOf, ofChildren_isBranch, occupancy_eq_zero_iff]
  simp only [← Node.isNil_iff, isNil_ofTrie]

theorem hash_child_eq (h : preimageOf (.inner c) = preimageOf (.inner c')) (i : Fin branchFactor)
    : (ofTrie (c i)).hash = (ofTrie (c' i)).hash := by
  rw [preimageOf_inner, preimageOf_inner] at h
  split at h
  . next hempty =>
    split at h
    . next hempty' =>
      rw [isBranch_rootOf_eq_zero_iff] at hempty hempty'
      rw [hempty, hempty']
    . cases h
  split at h
  . cases h
  rw [Option.some_inj, preimage_rootOf, preimage_rootOf] at h
  have hblocks := append_cancel_left h
  have hlen : ∀ i, (ofTrie (c i)).hash.toList.length = (ofTrie (c' i)).hash.toList.length := by
    intro i
    simp
  exact Vector.toList_inj.mp (flatMap_inj hlen hblocks i (mem_finRange i))

theorem leafPreimage_ne_preimage (kind : LeafKind) (item : Item) (c : Fin branchFactor → Trie)
    : leafPreimage kind item ≠ (rootOf c).preimage := by
  intro h
  rw [preimage_rootOf] at h
  have hhead := congrArg (take 2) h
  revert hhead
  unfold leafPreimage
  cases kind <;> simp [LeafKind.keyOnWire, LeafKind.hashPrefix, hashPrefixInnerNode]

theorem isBranch_rootOf_ne_zero (h : Tree.Compact (.inner c)) : (rootOf c).isBranch ≠ 0 := by
  rw [ne_eq, isBranch_rootOf_eq_zero_iff]
  intro hnil
  have htwo := h.two_le
  simp [Tree.items_inner, hnil] at htwo

theorem eq_of_hash_eq (ht : t.Compact) (hu : u.Compact) (hkt : Keyed t) (hku : Keyed u)
    (hfree : CollisionFree ((ofTrie t).preimages ++ (ofTrie u).preimages))
    (h : (ofTrie t).hash = (ofTrie u).hash)
    : t = u := by
  induction t generalizing u with
  | nil =>
    have hpre := hfree.preimageOf_eq h
    cases u with
    | nil => rfl
    | leaf => cases hpre
    | inner c' =>
      rw [preimageOf_inner, if_neg (isBranch_rootOf_ne_zero hu)] at hpre
      cases hpre
  | leaf k a =>
    have hpre := hfree.preimageOf_eq h
    cases u with
    | nil => cases hpre
    | leaf k' a' =>
      obtain ⟨hkind, hitem⟩ := leafPreimage_inj (hkt (k, a) (by simp)) (hku (k', a') (by simp))
        (Option.some_inj.mp hpre)
      obtain ⟨hkey, hdata⟩ := Item.mk.inj hitem
      have ha : a = a' := Prod.ext hkind hdata
      rw [hkey, ha]
    | inner c' =>
      rw [preimageOf_inner, if_neg (isBranch_rootOf_ne_zero hu)] at hpre
      exact absurd (Option.some_inj.mp hpre) (leafPreimage_ne_preimage _ _ c')
  | inner c ih =>
    have hpre := hfree.preimageOf_eq h
    cases u with
    | nil =>
      rw [preimageOf_inner, if_neg (isBranch_rootOf_ne_zero ht)] at hpre
      cases hpre
    | leaf k' a' =>
      rw [preimageOf_inner, if_neg (isBranch_rootOf_ne_zero ht)] at hpre
      exact absurd (Option.some_inj.mp hpre).symm (leafPreimage_ne_preimage _ _ c)
    | inner c' =>
      congr 1
      funext i
      exact ih i (ht.child i) (hu.child i) (hkt.child i) (hku.child i) (hfree.child i)
        (hash_child_eq hpre i)

theorem eq_of_hash_rootOf_eq (hc : ∀ i, (c i).Compact)
    (hc' : ∀ i, (c' i).Compact) (hk : Keyed (.inner c)) (hk' : Keyed (.inner c'))
    (hfree : CollisionFree ((ofTrie (.inner c)).preimages ++ (ofTrie (.inner c')).preimages))
    (h : (rootOf c).hash = (rootOf c').hash)
    : c = c' := by
  have hpre := CollisionFree.preimageOf_eq hfree h
  funext i
  exact eq_of_hash_eq (hc i) (hc' i) (hk.child i) (hk'.child i) (hfree.child i)
    (hash_child_eq hpre i)

end

end SHAMap
