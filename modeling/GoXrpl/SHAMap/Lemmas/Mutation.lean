import GoXrpl.Radix.Retype
import GoXrpl.SHAMap.Impl.Mutation
import GoXrpl.SHAMap.Lemmas.Traverse

open Function Radix.Tree SHAMap.InnerNode

namespace SHAMap

open Radix

variable [Sha512Half]

def leafKind (sm : SHAMap) : LeafKind :=
  match sm.mapType with
  | .transaction => .transaction
  | .state => .accountState

theorem createLeafNode_eq (sm : SHAMap) (item : Item)
    : createLeafNode sm.getLeafNodeType item
        =
      if item.data.length < 12 then
        .error .errItemTooSmall
      else
        .ok (leafNode item.key (sm.leafKind, item.data)) := by
  unfold getLeafNodeType leafKind
  cases sm.mapType <;> rfl

def Storable (sm : SHAMap) (x : Hash256 × (LeafKind × List UInt8)) : Prop :=
  x.2.1 = sm.leafKind ∧ 12 ≤ x.2.2.length

structure Represents (sm : SHAMap) (c : Fin branchFactor → Trie) : Prop where
  root : sm.root = rootOf c
  canonical : Tree.Canonical getBranchAtDepth (.inner c)
  storable : ∀ x ∈ (inner c).items, sm.Storable x

structure Typed (sm : SHAMap) (c : Fin branchFactor → Trie) : Prop where
  root : sm.root = rootOf c
  canonical : Tree.Canonical getBranchAtDepth (.inner c)
  long : ∀ x ∈ (inner c).items, 12 ≤ x.2.2.length

variable {sm : SHAMap}

theorem Represents.typed (h : sm.Represents c) : sm.Typed c where
  root := h.root
  canonical := h.canonical
  long := fun x hx => (h.storable x hx).2

theorem Typed.get_eq (h : sm.Typed c) (key : Hash256)
    : sm.get key = .ok (((inner c).lookup getBranchAtDepth key 0).map fun a =>
        { key, data := a.2 }) := by
  unfold SHAMap.get findItem walkToKey
  rw [h.root, ← ofTrie_inner]
  obtain ⟨stack, ⟨k, a, hwalk, hl⟩ | ⟨hwalk, hl⟩⟩ :=
    walkToKey.go_lookup newRootNodeID [] (onPath_root h.canonical key)
  . rw [hwalk, show (inner c).lookup getBranchAtDepth key 0 = _ from hl]
    by_cases hk : key = k
    . subst hk
      simp [leafNode]
    have hk' : ¬ k = key := fun heq => hk heq.symm
    simp [leafNode, hk, hk']
  rw [hwalk, show (inner c).lookup getBranchAtDepth key 0 = _ from hl]
  rfl

namespace splitLeaf

theorem buildChain_fst (key : Hash256) (m d : Nat) (chain : List InnerNode)
    : (buildChain key m d newInnerNode chain).1 = newInnerNode := by
  induction m generalizing d chain with
  | zero => rfl
  | succ m ih => exact ih _ _

theorem setChild_setChild (c : Fin branchFactor → Trie) (i : Fin branchFactor) (t t' : Trie)
    : ((rootOf c).setChild i (ofTrie t)).setChild i (ofTrie t')
        = rootOf (update c i t') := by
  rw [setChild_rootOf, setChild_rootOf, update_idem]

theorem refreshChain_buildChain (k k' : Hash256) (a a' : LeafKind × List UInt8) (m d : Nat)
    (chain : List InnerNode)
    : refreshChain k (rootOf (forkChildren getBranchAtDepth k a k' a' 0 (d + m)))
        (buildChain k m d newInnerNode chain).2 (d + m - 1)
        = refreshChain k (rootOf (forkChildren getBranchAtDepth k a k' a' m d)) chain
            (d - 1) := by
  induction m generalizing d chain with
  | zero => rfl
  | succ m ih =>
    simp only [buildChain]
    have hdepth : d + (m + 1) = d + 1 + m := by omega
    rw [hdepth, ih, refreshChain, Nat.add_sub_cancel]
    congr 1
    rw [newInnerNode_eq_rootOf, ← ofTrie_inner, ← ofTrie_inner, setChild_setChild]
    rfl

end splitLeaf

theorem splitLeaf_eq (hle : d ≤ findSplitDepth k k' d)
    : splitLeaf k k' (leafNode k a) (leafNode k' a') d
        = rootOf (forkChildren getBranchAtDepth k a k' a' (findSplitDepth k k' d - d) d) := by
  have hbottom : ((newInnerNode.setChild (getBranchAtDepth k (findSplitDepth k k' d))
      (leafNode k a)).setChild (getBranchAtDepth k' (findSplitDepth k k' d)) (leafNode k' a'))
        = rootOf (forkChildren getBranchAtDepth k a k' a' 0 (findSplitDepth k k' d)) := by
    rw [newInnerNode_eq_rootOf, show leafNode k a = ofTrie (.leaf k a) from rfl,
      show leafNode k' a' = ofTrie (.leaf k' a') from rfl, setChild_rootOf, setChild_rootOf]
    rfl
  have hsum : d + (findSplitDepth k k' d - d) = findSplitDepth k k' d := by omega
  show refreshChain k
    (((buildChain k (findSplitDepth k k' d - d) d newInnerNode []).1.setChild _ _).setChild
      _ _)
    (buildChain k (findSplitDepth k k' d - d) d newInnerNode []).2 _ = _
  rw [splitLeaf.buildChain_fst, hbottom]
  have := splitLeaf.refreshChain_buildChain k k' a a' (findSplitDepth k k' d - d) d []
  rwa [hsum] at this

namespace dirtyUp

theorem modifying_eq_go (h : child.isNil = false)
    : dirtyUp .modifying stack key child = go key stack child := by
  simp [dirtyUp, h]

theorem go_cons (stack : NodeStack) (h : nodeID.depth < maxDepth)
    : go key ((ofTrie (.inner c), nodeID) :: stack) (ofTrie t)
        = go key stack
            (ofTrie (.inner (update c (getBranchAtDepth key nodeID.depth) t))) := by
  rw [ofTrie_inner, ofTrie_inner, ← setChild_rootOf, ← selectBranch_eq_getBranchAtDepth h]
  rfl

end dirtyUp

theorem putAt_nil (hleaf : createLeafNode nodeType (itemOf (key, a)) = .ok (leafNode key a))
    : putAt .modifying (itemOf (key, a)) nodeType .nil stack
        = orWrap "failed to dirty up" (dirtyUp.go key stack (leafNode key a)) := by
  rw [← dirtyUp.modifying_eq_go (isNil_leafNode key a)]
  unfold putAt
  rw [hleaf]
  rfl

theorem putAt_leaf (hleaf : createLeafNode nodeType (itemOf (key, a)) = .ok (leafNode key a))
    : putAt .modifying (itemOf (key, a)) nodeType (leafNode k' a') stack
        =
      orWrap "failed to dirty up" (dirtyUp.go key stack
        (if key = k' then
          leafNode key a
        else
          (splitLeaf key k' (leafNode key a) (leafNode k' a') stack.length).toNode)) := by
  rw [← dirtyUp.modifying_eq_go]
  . unfold putAt
    rw [hleaf]
    by_cases hk : key = k'
    . simp [hk, leafNode, itemOf]
    . simp [hk, leafNode, itemOf]
  . split <;> rfl

theorem putAt_walkToKey (key : Hash256) (a : LeafKind × List UInt8)
    (nodeID : NodeID) (stack : NodeStack)
    (hleaf : createLeafNode nodeType (itemOf (key, a)) = .ok (leafNode key a))
    (h : OnPath key nodeID.depth t) (hlen : stack.length = nodeID.depth)
    : ∃ node stack', walkToKey.go key false (ofTrie t) nodeID stack = .ok (node, stack')
        ∧ putAt .modifying (itemOf (key, a)) nodeType node stack'
            = orWrap "failed to dirty up" (dirtyUp.go key stack
                (ofTrie (t.insert getBranchAtDepth maxDepth key a nodeID.depth))) := by
  induction t generalizing nodeID stack with
  | nil => exact ⟨_, _, rfl, putAt_nil hleaf⟩
  | leaf k' a' =>
    refine ⟨_, _, rfl, ?_⟩
    rw [ofTrie, putAt_leaf hleaf]
    simp only [Tree.insert, Bool.false_eq_true, if_false]
    split
    . rfl
    . next hk =>
      have hagree : ∀ e < nodeID.depth, getBranchAtDepth key e = getBranchAtDepth k' e := by
        intro e he
        exact (h.below (k', a') (by simp) e he).symm
      have hle := (firstDiff_spec separates_getBranchAtDepth hk hagree).1
      rw [hlen, splitLeaf_eq hle]
      rfl
  | inner c ih =>
    rcases walkToKey.go_inner key false c nodeID stack (h.depth_lt rfl) with ⟨hnil, hgo⟩ | ⟨_, child, hdepth, hgo⟩
    . refine ⟨_, _, hgo, ?_⟩
      rw [putAt_nil hleaf, show leafNode key a = ofTrie (.leaf key a) from rfl,
        dirtyUp.go_cons stack (h.depth_lt rfl)]
      simp only [Tree.insert, hnil]
    have hchild : OnPath key child.depth (c (getBranchAtDepth key nodeID.depth)) := by
      rw [hdepth]
      exact h.child
    have hlen' : ((ofTrie (.inner c), nodeID) :: stack).length = child.depth := by
      simp [hlen, hdepth]
    obtain ⟨node, stack', hwalk, hput⟩ := ih _ _ _ hchild hlen'
    refine ⟨node, stack', hgo.trans hwalk, ?_⟩
    rw [hput, dirtyUp.go_cons stack (h.depth_lt rfl), hdepth]
    rfl

theorem putItemWithNodeTypeUnsafe_eq_ok (h : sm.Typed c) (hstate : sm.state = .modifying)
    (hleaf : createLeafNode nodeType item = .ok (leafNode item.key (kind, item.data)))
    : ∃ c', sm.putItemWithNodeTypeUnsafe item nodeType = (.ok (), { sm with root := rootOf c' })
        ∧ inner c' = (inner c).insert getBranchAtDepth maxDepth item.key
            (kind, item.data) 0 := by
  obtain ⟨node, stack, hwalk, hput⟩ := putAt_walkToKey item.key (kind, item.data)
    newRootNodeID [] hleaf (onPath_root h.canonical item.key) rfl
  refine ⟨_, ?_, rfl⟩
  have hroot : putNewRoot sm item nodeType
      = .ok (ofTrie ((inner c).insert getBranchAtDepth maxDepth item.key
          (kind, item.data) 0)) := by
    unfold putNewRoot walkToKey
    rw [h.root, ← ofTrie_inner, hwalk, hstate]
    exact hput
  unfold putItemWithNodeTypeUnsafe
  rw [hroot]
  rfl

theorem putItemWithNodeTypeUnsafe_eq_error (h : sm.Typed c)
    (hleaf : createLeafNode nodeType item = .error e)
    : ∃ err, sm.putItemWithNodeTypeUnsafe item nodeType = (.error err, sm) := by
  have hroot : ∃ err, putNewRoot sm item nodeType = .error err := by
    unfold putNewRoot walkToKey
    rw [h.root, ← ofTrie_inner]
    obtain ⟨stack, ⟨k, a, hwalk, _⟩ | ⟨hwalk, _⟩⟩ :=
      walkToKey.go_lookup newRootNodeID [] (onPath_root h.canonical item.key)
    . rw [hwalk]
      simp [orWrap, putAt, leafNode, hleaf]
    rw [hwalk]
    simp [orWrap, putAt, hleaf]
  obtain ⟨err, hroot⟩ := hroot
  refine ⟨err, ?_⟩
  unfold putItemWithNodeTypeUnsafe
  rw [hroot]

theorem putItemUnsafe_eq_ok (h : sm.Typed c)
    (hstate : sm.state = .modifying) (hlen : 12 ≤ item.data.length)
    : ∃ c', sm.putItemUnsafe item = (.ok (), { sm with root := rootOf c' })
        ∧ inner c' = (inner c).insert getBranchAtDepth maxDepth item.key
            (sm.leafKind, item.data) 0 := by
  apply putItemWithNodeTypeUnsafe_eq_ok h hstate
  rw [createLeafNode_eq, if_neg (Nat.not_lt.mpr hlen)]

theorem putItemUnsafe_eq_error (h : sm.Typed c) (item : Item) (hlen : item.data.length < 12)
    : ∃ err, sm.putItemUnsafe item = (.error err, sm) := by
  apply putItemWithNodeTypeUnsafe_eq_error h
  rw [createLeafNode_eq, if_pos hlen]

def retype (sm : SHAMap) (a : LeafKind × List UInt8) : LeafKind × List UInt8 :=
  (sm.leafKind, a.2)

omit [Sha512Half] in
theorem retype_retype (sm : SHAMap) (a : LeafKind × List UInt8)
    : sm.retype (sm.retype a) = sm.retype a := rfl

theorem consolidate_rootOf
    (hplaced : Tree.Placed getBranchAtDepth d (.inner c)) (hcompact : ∀ i, (c i).Compact)
    (hlong : ∀ x ∈ (inner c).items, 12 ≤ x.2.2.length)
    : consolidate sm.getLeafNodeType (rootOf c)
        = .ok (ofTrie ((inner c).collapseWith sm.retype)) := by
  rcases branches_cases c with ⟨hcount, hnil⟩ | ⟨i, hcount, hzeros, hi, hother⟩
    | ⟨i, j, hcount, hij, hi, hj⟩
  . have hitems : (inner c).items = [] := by
      simp [items_inner, hnil]
    simp [consolidate, hcount, collapseWith, hitems]
  . have hitems := items_eq_of_single hother
    have honly : onlyBelow (rootOf c).toNode = onlyBelow (ofTrie (c i)) := by
      rw [← ofTrie_inner, onlyBelow_inner, hzeros]
      simp [hcount]
    simp only [consolidate, hcount, honly]
    cases hci : c i with
    | nil => exact absurd hci hi
    | leaf k a =>
      rw [hci, items_leaf] at hitems
      have hlen := hlong (k, a) (by rw [hitems]; simp)
      have hleaf : createLeafNode sm.getLeafNodeType { key := k, data := a.2 }
          = .ok (leafNode k (sm.retype a)) := by
        rw [createLeafNode_eq, if_neg (Nat.not_lt.mpr hlen)]
        rfl
      simp [ofTrie, leafNode, onlyBelow, hleaf, orWrap, collapseWith, hitems]
    | inner c' =>
      have hc' := hcompact i
      rw [hci] at hc' hitems
      have htwo := hc'.two_le
      rw [onlyBelow_compact hc']
      rw [collapseWith_of_two_le (by rwa [hitems]), ofTrie_inner]
  have htwo : 2 ≤ (inner c).items.length := by
    obtain ⟨x, hx⟩ := (hcompact i).exists_mem hi
    obtain ⟨y, hy⟩ := (hcompact j).exists_mem hj
    rw [hplaced.two_le_iff]
    refine ⟨x, mem_items_inner.mpr ⟨i, hx⟩, y, mem_items_inner.mpr ⟨j, hy⟩, ?_⟩
    intro hxy
    apply hij
    rw [← hplaced.digit_eq hx, ← hplaced.digit_eq hy, hxy]
  rw [collapseWith_of_two_le htwo, ofTrie_inner]
  obtain ⟨m, hm⟩ := Nat.exists_eq_add_of_le' hcount
  simp only [consolidate, hm]

omit [Sha512Half] in
theorem long_eraseWith {t : Trie} (h : ∀ x ∈ t.items, 12 ≤ x.2.2.length)
    : ∀ x ∈ (t.eraseWith getBranchAtDepth sm.retype key d).items, 12 ≤ x.2.2.length := by
  induction t generalizing d with
  | nil =>
    intro x hx
    cases hx
  | leaf k a =>
    intro x hx
    unfold eraseWith at hx
    split at hx
    . cases hx
    . exact h x hx
  | inner c ih =>
    intro x hx
    rw [eraseWith, mem_items_collapseWith] at hx
    obtain ⟨y, hy, _, hval⟩ := hx
    have hdata : x.2.2 = y.2.2 := by
      rcases hval with ⟨_, hval⟩ | ⟨_, hval⟩
      . rw [hval]
        rfl
      . rw [hval]
    rw [hdata]
    rw [mem_items_update] at hy
    rcases hy with hy | ⟨j, _, hy⟩
    . exact ih _ (fun z hz => h z (mem_items_inner.mpr ⟨_, hz⟩)) y hy
    . exact h y (mem_items_inner.mpr ⟨j, hy⟩)

namespace consolidateAfterDelete

theorem go_cons_root (stack : NodeStack) (hroot : nodeID.depth = 0)
    : go sm key ((ofTrie (.inner c), nodeID) :: stack) (ofTrie t)
        = go sm key stack
            (ofTrie (.inner (update c (getBranchAtDepth key nodeID.depth) t))) := by
  have hlt : nodeID.depth < maxDepth := by
    rw [hroot]
    decide
  have hisRoot : nodeID.isRoot = true := by
    simp [NodeID.isRoot, hroot]
  rw [ofTrie_inner, ofTrie_inner, ← setChild_rootOf, ← selectBranch_eq_getBranchAtDepth hlt,
    toNode]
  simp only [go, hisRoot, if_true]

theorem go_cons (stack : NodeStack) (hroot : nodeID.depth ≠ 0) (hlt : nodeID.depth < maxDepth)
    (hcons : consolidate sm.getLeafNodeType (rootOf (update c (getBranchAtDepth key nodeID.depth) t))
      = .ok (ofTrie ((inner (update c (getBranchAtDepth key nodeID.depth) t)).collapseWith sm.retype)))
    : go sm key ((ofTrie (.inner c), nodeID) :: stack) (ofTrie t)
        = go sm key stack (ofTrie
            ((inner (update c (getBranchAtDepth key nodeID.depth) t)).collapseWith sm.retype)) := by
  have hisRoot : nodeID.isRoot = false := by
    simp [NodeID.isRoot, hroot]
  rw [← setChild_rootOf] at hcons
  rw [ofTrie_inner, toNode]
  simp only [go, hisRoot, Bool.false_eq_true, if_false, selectBranch_eq_getBranchAtDepth hlt]
  rw [hcons]

theorem go_walkToKey
    (nodeID : NodeID) (stack : NodeStack) (h : OnPath key nodeID.depth t) (hc : t.Compact)
    (hroot : nodeID.depth ≠ 0) (hmem : (key, a) ∈ t.items)
    (hlong : ∀ x ∈ t.items, 12 ≤ x.2.2.length)
    : ∃ nodeID' stack', walkToKey.go key true (ofTrie t) nodeID stack
          = .ok (leafNode key a, (leafNode key a, nodeID') :: stack')
        ∧ go sm key stack' .nil
            = go sm key stack
                (ofTrie (t.eraseWith getBranchAtDepth sm.retype key nodeID.depth)) := by
  induction t generalizing nodeID stack with
  | nil => simp at hmem
  | leaf k' a' =>
    simp only [items_leaf, List.mem_singleton, Prod.mk.injEq] at hmem
    obtain ⟨rfl, rfl⟩ := hmem
    refine ⟨nodeID, stack, rfl, ?_⟩
    simp [eraseWith]
  | inner c ih =>
    rw [h.placed.mem_iff] at hmem
    rcases walkToKey.go_inner key true c nodeID stack (h.depth_lt rfl) with ⟨hnil, _⟩ | ⟨_, child, hdepth, hgo⟩
    . simp only [hnil, items_nil, List.not_mem_nil] at hmem
    have hchild : OnPath key child.depth (c (getBranchAtDepth key nodeID.depth)) := by
      rw [hdepth]
      exact h.child
    obtain ⟨nodeID', stack', hwalk, hcons⟩ := ih _ child ((ofTrie (.inner c), nodeID) :: stack)
      hchild (hc.child _) (by omega) hmem
      fun x hx => hlong x (mem_items_inner.mpr ⟨_, hx⟩)
    refine ⟨nodeID', stack', hgo.trans hwalk, ?_⟩
    rw [hcons, hdepth]
    apply go_cons stack hroot (h.depth_lt rfl)
    apply consolidate_rootOf
    . exact h.placed.update_eraseWith (placed_eraseWith h.child.placed)
    . apply compact_update
      . intro j _
        exact hc.child j
      . exact compact_eraseWith (hc.child _)
    intro x hx
    rw [mem_items_update] at hx
    rcases hx with hx | ⟨j, _, hx⟩
    . exact long_eraseWith (fun y hy => hlong y (mem_items_inner.mpr ⟨_, hy⟩)) x hx
    . exact hlong x (mem_items_inner.mpr ⟨j, hx⟩)

end consolidateAfterDelete

theorem walkToKey.go_absent (nodeID : NodeID) (stack : NodeStack)
    (h : OnPath key nodeID.depth t) (habsent : ∀ a, (key, a) ∉ t.items)
    : ∃ node top nodeID' stack',
        walkToKey.go key true (ofTrie t) nodeID stack = .ok (node, (top, nodeID') :: stack')
          ∧ ∀ kind item hash, top = .leaf kind item hash → key ≠ item.key := by
  induction t generalizing nodeID stack with
  | nil => exact ⟨_, _, _, _, rfl, by simp⟩
  | leaf k a =>
    refine ⟨_, _, _, _, rfl, ?_⟩
    intro kind item hash heq
    cases heq
    rintro rfl
    exact habsent a (by simp)
  | inner c ih =>
    rcases walkToKey.go_inner key true c nodeID stack (h.depth_lt rfl) with ⟨_, hgo⟩ | ⟨_, child, hdepth, hgo⟩
    . refine ⟨_, _, _, _, hgo, ?_⟩
      simp [ofTrie_inner, toNode]
    rw [hgo]
    apply ih
    . rw [hdepth]
      exact h.child
    intro a ha
    exact habsent a (mem_items_inner.mpr ⟨_, ha⟩)

theorem delete_eq_error (h : sm.Typed c) (hstate : sm.state = .modifying)
    (habsent : ∀ a, (key, a) ∉ (inner c).items)
    : sm.delete key = (.error .errItemNotFound, sm) := by
  obtain ⟨node, top, nodeID, stack, hwalk, htop⟩ :=
    walkToKey.go_absent newRootNodeID [] (onPath_root h.canonical key) habsent
  have hfind : findAndRemoveLeaf sm key = .error .errItemNotFound := by
    unfold findAndRemoveLeaf walkToKey
    rw [h.root, ← ofTrie_inner, hwalk]
    cases top with
    | nil => rfl
    | inner => rfl
    | leaf kind item hash => simp [orWrap, htop kind item hash rfl]
  simp [delete, hstate, hfind]

theorem delete_eq_ok (h : sm.Typed c) (hstate : sm.state = .modifying)
    (hmem : (key, a) ∈ (inner c).items)
    : ∃ c', sm.delete key = (.ok (), { sm with root := rootOf c' })
        ∧ inner c' = (inner c).eraseRootWith getBranchAtDepth sm.retype key := by
  have hpath := onPath_root h.canonical key
  have hdepth : (newRootNodeID).depth = 0 := rfl
  rw [h.canonical.1.mem_iff] at hmem
  rcases walkToKey.go_inner key true c newRootNodeID [] (hpath.depth_lt rfl) with ⟨hnil, _⟩ | ⟨_, child, hchild, hgo⟩
  . rw [hdepth] at hnil
    simp [hnil] at hmem
  rw [hdepth] at hgo hchild
  have hchildPath : OnPath key child.depth (c (getBranchAtDepth key 0)) := by
    rw [hchild]
    exact hpath.child
  obtain ⟨nodeID, stack, hwalk, hcons⟩ := consolidateAfterDelete.go_walkToKey child
    [(ofTrie (.inner c), newRootNodeID)] hchildPath (h.canonical.2 _) (by omega) hmem
    fun x hx => h.long x (mem_items_inner.mpr ⟨_, hx⟩)
  refine ⟨_, ?_, rfl⟩
  have hfind : findAndRemoveLeaf sm key = .ok stack := by
    unfold findAndRemoveLeaf walkToKey
    rw [h.root, ← ofTrie_inner, hgo, hwalk]
    simp [orWrap, leafNode]
  have hnew : consolidateAfterDelete sm stack key
      = .ok (ofTrie ((inner c).eraseRootWith getBranchAtDepth sm.retype key)) := by
    unfold consolidateAfterDelete
    rw [hcons, consolidateAfterDelete.go_cons_root [] rfl, hchild]
    rfl
  simp only [delete, hstate, hfind, hnew]
  rfl

theorem Represents.retype_eq (h : sm.Represents c) : ∀ x ∈ (inner c).items, sm.retype x.2 = x.2 := by
  intro x hx
  rw [retype, ← (h.storable x hx).1]

end SHAMap
