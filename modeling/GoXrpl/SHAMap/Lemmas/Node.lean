import GoXrpl.SHAMap.Impl.Node
import GoXrpl.Radix.Order

open Function SHAMap.InnerNode

namespace SHAMap

theorem highNibble_val (b : UInt8) : (highNibble b).val = b.toNat / 16 := by
  simp [highNibble, Nat.shiftRight_eq_div_pow]

theorem lowNibble_val (b : UInt8) : (lowNibble b).val = b.toNat % 16 := by
  exact Nat.and_two_pow_sub_one_eq_mod b.toNat 4

theorem byte_eq_of_nibbles (hhigh : highNibble a = highNibble b) (hlow : lowNibble a = lowNibble b)
    : a = b := by
  rw [Fin.ext_iff, highNibble_val, highNibble_val] at hhigh
  rw [Fin.ext_iff, lowNibble_val, lowNibble_val] at hlow
  rw [← UInt8.toNat_inj]
  omega

theorem byte_lt_iff
    : a < b ↔ highNibble a < highNibble b
        ∨ (highNibble a = highNibble b ∧ lowNibble a < lowNibble b) := by
  rw [UInt8.lt_iff_toNat_lt, Fin.lt_def, Fin.lt_def, Fin.ext_iff]
  simp only [highNibble_val, lowNibble_val]
  omega

theorem getBranchAtDepth_even (key : Hash256) (h : i < 32)
    : getBranchAtDepth key (2 * i) = highNibble key[i] := by
  have hdepth : ¬ 2 * i ≥ maxDepth := by
    unfold maxDepth
    omega
  have hdiv : 2 * i / 2 = i := by omega
  simp [getBranchAtDepth, hdepth, hdiv, h]

theorem getBranchAtDepth_odd (key : Hash256) (h : i < 32)
    : getBranchAtDepth key (2 * i + 1) = lowNibble key[i] := by
  have hdepth : ¬ 2 * i + 1 ≥ maxDepth := by
    unfold maxDepth
    omega
  have hdiv : (2 * i + 1) / 2 = i := by omega
  have hmod : (2 * i + 1) % 2 = 1 := by omega
  simp [getBranchAtDepth, hdepth, hdiv, hmod, h]

theorem getBranchAtDepth_of_le (key : Hash256) (h : maxDepth ≤ depth)
    : getBranchAtDepth key depth = 0 := by
  simp [getBranchAtDepth, h]

theorem getElem_eq_of_branches (h : i < 32)
    (heven : getBranchAtDepth a (2 * i) = getBranchAtDepth b (2 * i))
    (hodd : getBranchAtDepth a (2 * i + 1) = getBranchAtDepth b (2 * i + 1))
    : a[i] = b[i] := by
  rw [getBranchAtDepth_even a h, getBranchAtDepth_even b h] at heven
  rw [getBranchAtDepth_odd a h, getBranchAtDepth_odd b h] at hodd
  exact byte_eq_of_nibbles heven hodd

theorem separates_getBranchAtDepth : Radix.Separates getBranchAtDepth maxDepth := by
  intro a b heq
  apply Vector.ext
  intro i hi
  apply getElem_eq_of_branches hi
  . exact heq _ (by unfold maxDepth; omega)
  . exact heq _ (by unfold maxDepth; omega)

theorem branch_eq_of_getElem_eq (he : e / 2 < 32) (h : a[e / 2] = b[e / 2])
    : getBranchAtDepth a e = getBranchAtDepth b e := by
  have hcases : e = 2 * (e / 2) ∨ e = 2 * (e / 2) + 1 := by omega
  rcases hcases with heven | hodd
  . rw [heven, getBranchAtDepth_even a he, getBranchAtDepth_even b he, h]
  . rw [hodd, getBranchAtDepth_odd a he, getBranchAtDepth_odd b he, h]

theorem lexicographic_getBranchAtDepth : Radix.Lexicographic getBranchAtDepth := by
  intro a b
  rw [Vector.lt_iff_exists]
  constructor
  . rintro ⟨i, hi, hsame, hlt⟩
    have hbefore : ∀ e < 2 * i, getBranchAtDepth a e = getBranchAtDepth b e := by
      intro e he
      exact branch_eq_of_getElem_eq (by omega) (hsame (e / 2) (by omega))
    rcases byte_lt_iff.mp hlt with hhigh | ⟨hhigh, hlow⟩
    . refine ⟨2 * i, hbefore, ?_⟩
      rwa [getBranchAtDepth_even a hi, getBranchAtDepth_even b hi]
    refine ⟨2 * i + 1, ?_, ?_⟩
    . intro e he
      by_cases heq : e = 2 * i
      . rw [heq, getBranchAtDepth_even a hi, getBranchAtDepth_even b hi, hhigh]
      . exact hbefore e (by omega)
    . rwa [getBranchAtDepth_odd a hi, getBranchAtDepth_odd b hi]
  rintro ⟨d, hsame, hlt⟩
  have hd : d < maxDepth := by
    by_contra hge
    rw [getBranchAtDepth_of_le a (by omega), getBranchAtDepth_of_le b (by omega)] at hlt
    exact absurd hlt (lt_irrefl _)
  have hi : d / 2 < 32 := by
    unfold maxDepth at hd
    omega
  refine ⟨d / 2, hi, ?_, ?_⟩
  . intro j hj
    exact getElem_eq_of_branches (by omega) (hsame _ (by omega)) (hsame _ (by omega))
  rw [byte_lt_iff]
  have hcases : d = 2 * (d / 2) ∨ d = 2 * (d / 2) + 1 := by omega
  rcases hcases with heven | hodd
  . rw [heven, getBranchAtDepth_even a hi, getBranchAtDepth_even b hi] at hlt
    exact .inl hlt
  have hhigh := hsame (2 * (d / 2)) (by omega)
  rw [getBranchAtDepth_even a hi, getBranchAtDepth_even b hi] at hhigh
  rw [hodd, getBranchAtDepth_odd a hi, getBranchAtDepth_odd b hi] at hlt
  exact .inr ⟨hhigh, hlt⟩

theorem selectBranch_eq_getBranchAtDepth (h : nodeID.depth < maxDepth) (key : Hash256)
    : selectBranch nodeID key = getBranchAtDepth key nodeID.depth := by
  have h' : ¬ nodeID.depth ≥ maxDepth := by omega
  simp only [selectBranch, getBranchAtDepth, if_neg h']

theorem childNodeID_eq_ok {nodeID : NodeID} (h : nodeID.depth < maxDepth) (branch : Fin branchFactor)
    : ∃ child, nodeID.childNodeID branch = .ok child ∧ child.depth = nodeID.depth + 1 := by
  have h' : ¬ nodeID.depth ≥ maxDepth := by omega
  have hi : nodeID.depth / 2 < 32 := by
    unfold maxDepth at h
    omega
  simp [NodeID.childNodeID, h', hi]

theorem compareKeys_neg_iff : compareKeys a b < 0 ↔ a < b := by
  unfold compareKeys
  split
  . next h => simp [h]
  . next h =>
    split <;> simp [h]

theorem compareKeys_pos_iff : compareKeys a b > 0 ↔ b < a := by
  unfold compareKeys
  rcases lexicographic_getBranchAtDepth.trichotomy separates_getBranchAtDepth a b with h | h | h
  . simp [h, lexicographic_getBranchAtDepth.asymm h]
  . subst h
    simp [lexicographic_getBranchAtDepth.irrefl a]
  have hne : a ≠ b := by
    rintro rfl
    exact lexicographic_getBranchAtDepth.irrefl a h
  simp [h, lexicographic_getBranchAtDepth.asymm h, hne]

abbrev Trie := Radix.Tree branchFactor Hash256 (LeafKind × List UInt8)

@[simp]
theorem Node.isNil_iff {n : Node} : n.isNil = true ↔ n = .nil := by
  cases n <;> simp [Node.isNil]

@[simp]
theorem Node.isNil_toNode (n : InnerNode) : n.toNode.isNil = false := rfl

namespace InnerNode

def occupancy (children : Fin branchFactor → Node) : BitVec branchFactor :=
  (BitVec.iunfoldr (fun i _ => ((), !(children i).isNil)) ()).2

@[simp]
theorem getLsbD_occupancy (children : Fin branchFactor → Node) (i : Fin branchFactor)
    : (occupancy children).getLsbD i = !(children i).isNil := by
  unfold occupancy
  rw [BitVec.iunfoldr_getLsbD (fun _ => ()) i (fun _ => rfl)]

theorem eq_of_getLsbD_eq {x y : BitVec branchFactor}
    (h : ∀ i : Fin branchFactor, x.getLsbD i = y.getLsbD i)
    : x = y := by
  apply BitVec.eq_of_getLsbD_eq
  intro i hi
  exact h ⟨i, hi⟩

theorem getLsbD_bit (index i : Fin branchFactor)
    : (1#16 <<< index.val).getLsbD i = decide (i = index) := by
  rw [BitVec.getLsbD_shiftLeft, BitVec.getLsbD_one]
  have := i.isLt
  by_cases h : i = index
  . simp [h]
  by_cases hlt : i.val < index.val
  . simp [h, hlt]
  have hsub : i.val - index.val ≠ 0 := by omega
  simp [h, hsub]

theorem occupancy_update (children : Fin branchFactor → Node) (index : Fin branchFactor)
    (child : Node)
    : occupancy (update children index child)
        =
      if child.isNil then
        occupancy children &&& ~~~(1#16 <<< index.val)
      else
        occupancy children ||| (1#16 <<< index.val) := by
  apply eq_of_getLsbD_eq
  intro i
  rw [getLsbD_occupancy]
  by_cases hii : i = index
  . subst hii
    rw [update_self]
    split
    . next h =>
      rw [BitVec.getLsbD_and, BitVec.getLsbD_not, getLsbD_bit]
      simp [h]
    . next h =>
      rw [BitVec.getLsbD_or, getLsbD_bit]
      simp [h]
  have hi : i.val < branchFactor := i.isLt
  rw [update_of_ne hii]
  split
  . rw [BitVec.getLsbD_and, BitVec.getLsbD_not, getLsbD_bit, getLsbD_occupancy]
    simp only [hi, hii, decide_true, decide_false, Bool.not_false, Bool.and_true]
  rw [BitVec.getLsbD_or, getLsbD_bit, getLsbD_occupancy]
  simp only [hii, decide_false, Bool.or_false]

theorem occupancy_eq_zero_iff (children : Fin branchFactor → Node)
    : occupancy children = 0 ↔ ∀ i, children i = .nil := by
  constructor
  . intro h i
    have := getLsbD_occupancy children i
    rw [h] at this
    simpa using this
  intro h
  apply eq_of_getLsbD_eq
  intro i
  rw [getLsbD_occupancy, h]
  simp [Node.isNil]

theorem onesCount16_occupancy (children : Fin branchFactor → Node)
    : onesCount16 (occupancy children)
        = (List.finRange branchFactor).countP fun i => !(children i).isNil := by
  unfold onesCount16
  congr 1
  funext i
  exact getLsbD_occupancy children i

variable [Sha512Half]

theorem updateHashUnsafe_congr {n m : InnerNode} (hchildren : n.children = m.children)
    (hhashes : n.hashes = m.hashes) (hisBranch : n.isBranch = m.isBranch)
    : n.updateHashUnsafe = m.updateHashUnsafe := by
  have hpre : n.preimage = m.preimage := by
    unfold preimage childPreimageHash
    rw [hchildren, hhashes, hisBranch]
  unfold updateHashUnsafe
  rw [hpre, hchildren, hhashes, hisBranch]

def ofChildren (children : Fin branchFactor → Node) : InnerNode :=
  updateHashUnsafe
    {
      children := children
      hashes := fun i => (children i).hash
      isBranch := occupancy children
      hash := Hash256.zero
    }

@[simp]
theorem updateHashUnsafe_children (n : InnerNode) : n.updateHashUnsafe.children = n.children := by
  unfold updateHashUnsafe
  split <;> rfl

@[simp]
theorem updateHashUnsafe_hashes (n : InnerNode) : n.updateHashUnsafe.hashes = n.hashes := by
  unfold updateHashUnsafe
  split <;> rfl

@[simp]
theorem updateHashUnsafe_isBranch (n : InnerNode) : n.updateHashUnsafe.isBranch = n.isBranch := by
  unfold updateHashUnsafe
  split <;> rfl

section

variable (children : Fin branchFactor → Node)

include children

@[simp]
theorem ofChildren_children : (ofChildren children).children = children := by
  simp [ofChildren]

@[simp]
theorem ofChildren_isBranch : (ofChildren children).isBranch = occupancy children := by
  simp [ofChildren]

@[simp]
theorem isEmptyBranch_ofChildren (i : Fin branchFactor)
    : (ofChildren children).isEmptyBranch i = (children i).isNil := by
  unfold isEmptyBranch
  rw [ofChildren_isBranch, getLsbD_occupancy, Bool.not_not]

theorem setChild_ofChildren (index : Fin branchFactor) (child : Node)
    : (ofChildren children).setChild index child
        = ofChildren (update children index child) := by
  have hhashes : (fun i => (update children index child i).hash)
      = update (fun i => (children i).hash) index child.hash := by
    funext i
    by_cases hi : i = index
    . subst hi
      simp
    . simp [update_of_ne hi]
  unfold setChild
  split
  . next h =>
    apply updateHashUnsafe_congr
    . simp
    . rw [hhashes]
      rw [Node.isNil_iff] at h
      subst h
      simp [ofChildren, Node.hash]
    . simp [occupancy_update, h]
  . next h =>
    apply updateHashUnsafe_congr
    . simp
    . rw [hhashes]
      simp [ofChildren]
    . simp [occupancy_update, h]

end

theorem newInnerNode_eq : newInnerNode = ofChildren fun _ => .nil := by
  have hocc : occupancy (fun _ => .nil) = 0 := by
    rw [occupancy_eq_zero_iff]
    intro _
    rfl
  simp [ofChildren, updateHashUnsafe, hocc, newInnerNode, Node.hash]

end InnerNode

variable [Sha512Half]

def leafNode (key : Hash256) (a : LeafKind × List UInt8) : Node :=
  .leaf a.1 { key, data := a.2 } (leafHash a.1 { key, data := a.2 })

@[simp]
theorem isNil_leafNode (key : Hash256) (a : LeafKind × List UInt8)
    : (leafNode key a).isNil = false := rfl

def ofTrie : Trie → Node
  | .nil => .nil
  | .leaf k a => leafNode k a
  | .inner c => (ofChildren fun i => ofTrie (c i)).toNode

def rootOf (c : Fin branchFactor → Trie) : InnerNode := ofChildren fun i => ofTrie (c i)

@[simp]
theorem ofTrie_nil : ofTrie .nil = .nil := rfl

theorem ofTrie_inner (c : Fin branchFactor → Trie) : ofTrie (.inner c) = (rootOf c).toNode := rfl

@[simp]
theorem isNil_ofTrie (t : Trie) : (ofTrie t).isNil = true ↔ t = .nil := by
  cases t with
  | nil => simp [ofTrie]
  | leaf => simp [ofTrie, leafNode]
  | inner => simp [ofTrie_inner, toNode]

theorem setChild_rootOf (c : Fin branchFactor → Trie) (index : Fin branchFactor) (t : Trie)
    : (rootOf c).setChild index (ofTrie t) = rootOf (update c index t) := by
  unfold rootOf
  rw [setChild_ofChildren]
  congr 1
  funext i
  by_cases hi : i = index
  . subst hi
    simp
  . simp [update_of_ne hi]

theorem newInnerNode_eq_rootOf : newInnerNode = rootOf Radix.Tree.noChildren :=
  newInnerNode_eq

end SHAMap
