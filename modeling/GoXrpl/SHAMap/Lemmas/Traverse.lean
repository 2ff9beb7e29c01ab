import GoXrpl.SHAMap.Impl.Traverse
import GoXrpl.SHAMap.Lemmas.Node

open List Radix.Tree SHAMap.InnerNode

namespace SHAMap

open Radix

structure OnPath (key : Hash256) (d : Nat) (t : Trie) : Prop where
  placed : Tree.Placed getBranchAtDepth d t
  below : Tree.Below getBranchAtDepth key d t
  depth_lt : ∀ {c}, t = .inner c → d < maxDepth
  compact : ∀ {c}, t = .inner c → ∀ i, (c i).Compact

variable {c : Fin branchFactor → Trie}

theorem OnPath.child (h : OnPath key d (.inner c))
    : OnPath key (d + 1) (c (getBranchAtDepth key d)) where
  placed := h.placed.child _
  below := h.below.child h.placed
  depth_lt := by
    intro c' hc
    have hcompact := h.compact rfl (getBranchAtDepth key d)
    have hplaced := h.placed.child (getBranchAtDepth key d)
    have hbelow := h.below.child h.placed
    rw [hc] at hcompact hplaced hbelow
    exact hcompact.depth_lt separates_getBranchAtDepth hplaced hbelow
  compact := by
    intro c' hc i
    have hcompact := h.compact rfl (getBranchAtDepth key d)
    rw [hc] at hcompact
    exact hcompact.child i

theorem onPath_root (h : Tree.Canonical getBranchAtDepth (.inner c)) (key : Hash256)
    : OnPath key 0 (.inner c) where
  placed := h.1
  below := below_zero key _
  depth_lt := fun _ => by decide
  compact := by
    intro c' hc i
    cases hc
    exact h.2 i

namespace walkToKey

theorem go_toNode (key : Hash256) (pushLeaf : Bool) (inner : InnerNode) (nodeID : NodeID)
    (stack : NodeStack)
    : go key pushLeaf inner.toNode nodeID stack
        =
      if inner.isEmptyBranch (selectBranch nodeID key) then
        .ok (.nil, (inner.toNode, nodeID) :: stack)
      else if (inner.children (selectBranch nodeID key)).isNil then
        .ok (.nil, (inner.toNode, nodeID) :: stack)
      else
        match orWrap "failed to get child node ID" (nodeID.childNodeID (selectBranch nodeID key)) with
        | .error err => .error err
        | .ok child =>
          go key pushLeaf (inner.children (selectBranch nodeID key)) child
            ((inner.toNode, nodeID) :: stack) := rfl

variable [Sha512Half]

theorem go_inner (key : Hash256) (pushLeaf : Bool) (c : Fin branchFactor → Trie) (nodeID : NodeID)
    (stack : NodeStack) (h : nodeID.depth < maxDepth)
    : (c (getBranchAtDepth key nodeID.depth) = .nil
        ∧ go key pushLeaf (ofTrie (.inner c)) nodeID stack
            = .ok (.nil, (ofTrie (.inner c), nodeID) :: stack))
      ∨ (c (getBranchAtDepth key nodeID.depth) ≠ .nil
        ∧ ∃ child : NodeID, child.depth = nodeID.depth + 1
          ∧ go key pushLeaf (ofTrie (.inner c)) nodeID stack
              = go key pushLeaf (ofTrie (c (getBranchAtDepth key nodeID.depth))) child
                  ((ofTrie (.inner c), nodeID) :: stack)) := by
  obtain ⟨child, hchild, hdepth⟩ := childNodeID_eq_ok h (getBranchAtDepth key nodeID.depth)
  rw [ofTrie_inner, go_toNode, selectBranch_eq_getBranchAtDepth h, hchild]
  simp only [rootOf, isEmptyBranch_ofChildren, ofChildren_children, orWrap]
  by_cases hnil : c (getBranchAtDepth key nodeID.depth) = .nil
  . left
    simp [hnil]
  right
  refine ⟨hnil, child, hdepth, ?_⟩
  rw [← isNil_ofTrie] at hnil
  simp only [hnil, Bool.false_eq_true, if_false]

theorem go_lookup (nodeID : NodeID) (stack : NodeStack) (h : OnPath key nodeID.depth t)
    : ∃ stack', (∃ k a, go key false (ofTrie t) nodeID stack = .ok (leafNode k a, stack')
          ∧ t.lookup getBranchAtDepth key nodeID.depth = if key = k then some a else none)
        ∨ (go key false (ofTrie t) nodeID stack = .ok (.nil, stack')
          ∧ t.lookup getBranchAtDepth key nodeID.depth = none) := by
  induction t generalizing nodeID stack with
  | nil => exact ⟨stack, .inr ⟨rfl, rfl⟩⟩
  | leaf k a => exact ⟨stack, .inl ⟨k, a, rfl, rfl⟩⟩
  | inner c ih =>
    rcases go_inner key false c nodeID stack (h.depth_lt rfl) with ⟨hnil, hgo⟩ | ⟨_, child, hdepth, hgo⟩
    . refine ⟨_, .inr ⟨hgo, ?_⟩⟩
      simp only [Tree.lookup, hnil]
    rw [hgo]
    simp only [Tree.lookup]
    rw [← hdepth]
    exact ih _ _ _ (hdepth ▸ h.child)

end walkToKey

section Leaves

def itemOf (x : Hash256 × (LeafKind × List UInt8)) : Item := { key := x.1, data := x.2.2 }

def visit {σ : Type} (fn : Item → σ → Bool × σ) : List Item → σ → Bool × σ
  | [], s => (true, s)
  | item :: items, s =>
    match fn item s with
    | (true, s) => visit fn items s
    | (false, s) => (false, s)

theorem visit_append (fn : Item → σ → Bool × σ) (l l' : List Item) (s : σ)
    : visit fn (l ++ l') s
        =
      match visit fn l s with
      | (true, s) => visit fn l' s
      | (false, s) => (false, s) := by
  induction l generalizing s with
  | nil => rfl
  | cons item l ih =>
    simp only [cons_append, visit]
    rcases fn item s with ⟨_ | _, s⟩
    . rfl
    . exact ih s

theorem forBranches_visit (fn : Item → σ → Bool × σ) (f : Fin branchFactor → List Item)
    (hstep : ∀ i s, step i s = visit fn (f i) s) (is : List (Fin branchFactor)) (s : σ)
    : forBranches step is s = visit fn (is.flatMap f) s := by
  induction is generalizing s with
  | nil => rfl
  | cons i is ih =>
    rw [flatMap_cons, visit_append, forBranches, hstep]
    rcases visit fn (f i) s with ⟨_ | _, s⟩
    . rfl
    . exact ih s

variable [Sha512Half]

theorem walkLeavesRec_ofTrie (fn : Item → σ → Bool × σ) (t : Trie) (s : σ)
    : walkLeavesRec fn (ofTrie t) s = visit fn (t.items.map itemOf) s := by
  induction t generalizing s with
  | nil => rfl
  | leaf k a =>
    show fn _ s = _
    simp only [items_leaf, map_cons, map_nil, visit, itemOf]
    rcases fn _ s with ⟨_ | _, s⟩ <;> rfl
  | inner c ih =>
    rw [items_inner, map_flatMap]
    apply forBranches_visit
    intro i s
    simp only [ofChildren_children]
    split
    . next hnil =>
      rw [isNil_ofTrie] at hnil
      simp [hnil, visit]
    . exact ih i s

theorem findSome?_boundBelow {sel : Trie → Option (Hash256 × (LeafKind × List UInt8))}
    (h : ∀ i, boundBelow ascending (ofTrie (c i)) = (sel (c i)).map itemOf)
    (l : List (Fin branchFactor))
    : (l.findSome? fun i =>
        if (ofTrie (c i)).isNil then none else boundBelow ascending (ofTrie (c i)))
        = (l.findSome? fun i => sel (c i)).map itemOf := by
  rw [map_findSome?]
  congr 1
  funext i
  split
  . next hnil =>
    rw [isNil_ofTrie] at hnil
    rw [Function.comp_apply, ← h i, hnil]
    rfl
  . exact h i

theorem boundBelow_first (t : Trie) : boundBelow true (ofTrie t) = t.first.map itemOf := by
  induction t with
  | nil => rfl
  | leaf => rfl
  | inner c ih =>
    simp only [ofTrie, toNode, boundBelow, ofChildren_children, if_true]
    exact findSome?_boundBelow ih _

theorem boundBelow_last (t : Trie) : boundBelow false (ofTrie t) = t.last.map itemOf := by
  induction t with
  | nil => rfl
  | leaf => rfl
  | inner c ih =>
    simp only [ofTrie, toNode, boundBelow, ofChildren_children,
      Bool.false_eq_true, if_false]
    exact findSome?_boundBelow ih _

end Leaves

section OnlyBelow

variable [Sha512Half]

theorem branches_cases (c : Fin branchFactor → Trie)
    : ((rootOf c).branchCount = 0 ∧ ∀ i, c i = .nil)
      ∨ (∃ i, (rootOf c).branchCount = 1 ∧ trailingZeros16 (rootOf c).isBranch = i
          ∧ c i ≠ .nil ∧ ∀ j, j ≠ i → c j = .nil)
      ∨ (∃ i j, 2 ≤ (rootOf c).branchCount ∧ i ≠ j ∧ c i ≠ .nil ∧ c j ≠ .nil) := by
  let used : Fin branchFactor → Bool := fun i => !(ofTrie (c i)).isNil
  have hused : ∀ i, used i = true ↔ c i ≠ .nil := by
    intro i
    rw [ne_eq, ← isNil_ofTrie, Bool.not_eq_true]
    exact iff_of_eq (Bool.not_eq_true' _)
  have hcount : (rootOf c).branchCount = ((finRange branchFactor).filter used).length := by
    simp only [branchCount, rootOf, ofChildren_isBranch,
      onesCount16_occupancy, countP_eq_length_filter, used]
  have hzeros : trailingZeros16 (rootOf c).isBranch
      = (((finRange branchFactor).filter used).head?).getD (Fin.last 15) := by
    rw [head?_filter]
    simp only [trailingZeros16, rootOf, ofChildren_isBranch]
    congr 2
    funext i
    exact getLsbD_occupancy _ i
  have hmem : ∀ i, i ∈ (finRange branchFactor).filter used ↔ c i ≠ .nil := by
    intro i
    rw [mem_filter, hused]
    simp
  have hnodup : ((finRange branchFactor).filter used).Nodup :=
    (nodup_finRange _).filter _
  rw [hcount, hzeros]
  generalize (finRange branchFactor).filter used = l at hmem hnodup
  match l with
  | [] =>
    left
    refine ⟨rfl, ?_⟩
    intro i
    have := hmem i
    simpa using this
  | [i] =>
    right; left
    refine ⟨i, rfl, rfl, (hmem i).mp (by simp), ?_⟩
    intro j hj
    have := hmem j
    simpa [hj] using this
  | i :: j :: l =>
    right; right
    refine ⟨i, j, by simp, ?_, (hmem i).mp (by simp), (hmem j).mp (by simp)⟩
    simp only [nodup_cons, mem_cons, not_or] at hnodup
    exact hnodup.1.1

theorem onlyBelow_inner (c : Fin branchFactor → Trie)
    : onlyBelow (ofTrie (.inner c))
        =
      if (rootOf c).branchCount ≠ 1 then
        none
      else
        onlyBelow (ofTrie (c (trailingZeros16 (rootOf c).isBranch))) := by
  show (if (rootOf c).branchCount ≠ 1 then none else _) = _
  congr 1
  simp only [rootOf, ofChildren_children]
  split
  . next hnil =>
    rw [isNil_ofTrie] at hnil
    rw [hnil]
    rfl
  . rfl

theorem onlyBelow_compact (h : Tree.Compact (.inner c)) : onlyBelow (ofTrie (.inner c)) = none := by
  generalize ht : inner c = t at h ⊢
  induction t generalizing c with
  | nil => cases ht
  | leaf => cases ht
  | inner c' ih =>
    rw [onlyBelow_inner]
    rcases branches_cases c' with ⟨hcount, _⟩ | ⟨i, hcount, hzeros, hi, hother⟩ | ⟨_, _, hcount, _⟩
    . simp [hcount]
    . rw [hzeros]
      simp only [hcount, ne_eq, not_true, if_false]
      cases hci : c' i with
      | nil => exact absurd hci hi
      | leaf =>
        -- the node would have the items of that leaf only
        have := h.two_le
        rw [items_eq_of_single hother, hci] at this
        simp at this
      | inner c'' =>
        rw [← hci]
        exact ih i hci.symm (h.child i)
    . rw [if_pos (by omega)]

end OnlyBelow

def foundOr (found : Option (Hash256 × (LeafKind × List UInt8)))
    (rest : Except Error (Option Item))
    : Except Error (Option Item) :=
  match found with
  | some x => .ok (some (itemOf x))
  | none => rest

theorem foundOr_ok_none (a : Option (Hash256 × (LeafKind × List UInt8)))
    : foundOr a (.ok none) = .ok (a.map itemOf) := by
  cases a <;> rfl

theorem foundOr_or (a b : Option (Hash256 × (LeafKind × List UInt8)))
    (rest : Except Error (Option Item))
    : foundOr (a.or b) rest = foundOr a (foundOr b rest) := by
  cases a <;> rfl

namespace walkBoundStack

theorem go_toNode {id : Hash256}
    (hchild : nodeID.childNodeID (selectBranch nodeID id) = .ok child) (n : InnerNode)
    (stack : NodeStack)
    : go id n.toNode nodeID stack
        = if n.isEmptyBranch (selectBranch nodeID id) then
            .ok ((n.toNode, nodeID) :: stack)
          else if (n.children (selectBranch nodeID id)).isNil then
            .ok ((n.toNode, nodeID) :: stack)
          else
            go id (n.children (selectBranch nodeID id)) child ((n.toNode, nodeID) :: stack) := by
  cases n
  simp only [toNode, go, hchild]

variable [Sha512Half]

theorem go_inner (id : Hash256) (c : Fin branchFactor → Trie) (nodeID : NodeID) (stack : NodeStack)
    (h : nodeID.depth < maxDepth)
    : (c (getBranchAtDepth id nodeID.depth) = .nil
        ∧ go id (ofTrie (.inner c)) nodeID stack = .ok ((ofTrie (.inner c), nodeID) :: stack))
      ∨ (c (getBranchAtDepth id nodeID.depth) ≠ .nil
        ∧ ∃ child : NodeID, child.depth = nodeID.depth + 1
          ∧ go id (ofTrie (.inner c)) nodeID stack
              = go id (ofTrie (c (getBranchAtDepth id nodeID.depth))) child
                  ((ofTrie (.inner c), nodeID) :: stack)) := by
  obtain ⟨child, hchild, hdepth⟩ := childNodeID_eq_ok h (getBranchAtDepth id nodeID.depth)
  rw [← selectBranch_eq_getBranchAtDepth h] at hchild
  rw [ofTrie_inner, go_toNode hchild, selectBranch_eq_getBranchAtDepth h]
  simp only [rootOf, isEmptyBranch_ofChildren, ofChildren_children]
  by_cases hnil : c (getBranchAtDepth id nodeID.depth) = .nil
  . left
    simp [hnil]
  right
  refine ⟨hnil, child, hdepth, ?_⟩
  rw [← isNil_ofTrie] at hnil
  simp only [hnil, Bool.false_eq_true, if_false]

end walkBoundStack

variable [Sha512Half]

theorem searchBranches_first (c : Fin branchFactor → Trie) (l : List (Fin branchFactor))
    : searchBranches (rootOf c).children true l
        = (l.findSome? fun i => (c i).first).map itemOf := by
  simp only [searchBranches, rootOf, ofChildren_children]
  exact findSome?_boundBelow (fun i => boundBelow_first (c i)) l

theorem searchBranches_last (c : Fin branchFactor → Trie) (l : List (Fin branchFactor))
    : searchBranches (rootOf c).children false l
        = (l.findSome? fun i => (c i).last).map itemOf := by
  simp only [searchBranches, rootOf, ofChildren_children]
  exact findSome?_boundBelow (fun i => boundBelow_last (c i)) l

theorem popUpper_inner (id : Hash256) (c : Fin branchFactor → Trie)
    (stack : NodeStack) (h : nodeID.depth < maxDepth)
    : popUpper id ((ofTrie (.inner c), nodeID) :: stack)
        = foundOr (((finRange branchFactor).drop (getBranchAtDepth id nodeID.depth + 1)).findSome?
            fun i => (c i).first) (popUpper id stack) := by
  rw [ofTrie_inner, toNode]
  simp only [popUpper, searchBranches_first, selectBranch_eq_getBranchAtDepth h]
  cases ((finRange branchFactor).drop (getBranchAtDepth id nodeID.depth + 1)).findSome?
    fun i => (c i).first <;> rfl

theorem popLower_inner (id : Hash256) (c : Fin branchFactor → Trie)
    (stack : NodeStack) (h : nodeID.depth < maxDepth)
    : popLower id ((ofTrie (.inner c), nodeID) :: stack)
        = foundOr (((finRange branchFactor).take (getBranchAtDepth id nodeID.depth)).reverse.findSome?
            fun i => (c i).last) (popLower id stack) := by
  rw [ofTrie_inner, toNode]
  simp only [popLower, searchBranches_last, selectBranch_eq_getBranchAtDepth h]
  cases ((finRange branchFactor).take (getBranchAtDepth id nodeID.depth)).reverse.findSome?
    fun i => (c i).last <;> rfl

theorem popUpper_leaf (id k : Hash256) (a : LeafKind × List UInt8) (nodeID : NodeID)
    (stack : NodeStack)
    : popUpper id ((ofTrie (.leaf k a), nodeID) :: stack)
        = foundOr (if id < k then some (k, a) else none) (popUpper id stack) := by
  simp only [ofTrie, leafNode, popUpper, compareKeys_pos_iff]
  split <;> rfl

theorem popLower_leaf (id k : Hash256) (a : LeafKind × List UInt8) (nodeID : NodeID)
    (stack : NodeStack)
    : popLower id ((ofTrie (.leaf k a), nodeID) :: stack)
        = foundOr (if k < id then some (k, a) else none) (popLower id stack) := by
  simp only [ofTrie, leafNode, popLower, compareKeys_neg_iff]
  split <;> rfl

theorem pop_walkBoundStack {id : Hash256} (nodeID : NodeID) (stack : NodeStack)
    (h : OnPath id nodeID.depth t) (hne : t ≠ .nil)
    : ∃ stack', walkBoundStack.go id (ofTrie t) nodeID stack = .ok stack'
        ∧ popUpper id stack'
            = foundOr (t.nextAbove getBranchAtDepth id nodeID.depth) (popUpper id stack)
        ∧ popLower id stack'
            = foundOr (t.nextBelow getBranchAtDepth id nodeID.depth) (popLower id stack) := by
  induction t generalizing nodeID stack with
  | nil => exact absurd rfl hne
  | leaf k a =>
    refine ⟨_, rfl, ?_, ?_⟩
    . exact popUpper_leaf id k a nodeID stack
    . exact popLower_leaf id k a nodeID stack
  | inner c ih =>
    have hlt := h.depth_lt rfl
    rcases walkBoundStack.go_inner id c nodeID stack hlt with ⟨hnil, hgo⟩ | ⟨hne, child, hdepth, hgo⟩
    . refine ⟨_, hgo, ?_, ?_⟩
      . rw [popUpper_inner id c stack hlt]
        simp only [nextAbove, hnil, Option.none_or]
      rw [popLower_inner id c stack hlt]
      simp only [nextBelow, hnil, Option.none_or]
    have hchild : OnPath id child.depth (c (getBranchAtDepth id nodeID.depth)) := by
      rw [hdepth]
      exact h.child
    obtain ⟨stack', hwalk, hupper, hlower⟩ :=
      ih _ child ((ofTrie (.inner c), nodeID) :: stack) hchild hne
    refine ⟨stack', hgo.trans hwalk, ?_, ?_⟩
    . rw [hupper, popUpper_inner id c stack hlt, ← foundOr_or, hdepth]
      rfl
    rw [hlower, popLower_inner id c stack hlt, ← foundOr_or, hdepth]
    rfl

end SHAMap
