import GoXrpl.SHAMap.Refinement

open List

namespace SHAMap

open Radix

def Node.leaves : Node → List Item
  | .nil => []
  | .leaf _ item _ => [item]
  | .inner children _ _ _ => (finRange branchFactor).flatMap fun i => (children i).leaves

inductive Node.Descendant : Node → Node → Prop where
  | child (children : Fin branchFactor → Node) (hashes : Fin branchFactor → Hash256)
      (isBranch : BitVec branchFactor) (hash : Hash256) (i : Fin branchFactor)
      : Descendant (.inner children hashes isBranch hash) (children i)
  | deeper (children : Fin branchFactor → Node) (hashes : Fin branchFactor → Hash256)
      (isBranch : BitVec branchFactor) (hash : Hash256) (i : Fin branchFactor) {n : Node}
      (h : Descendant (children i) n)
      : Descendant (.inner children hashes isBranch hash) n

def Node.isInner : Node → Bool
  | .inner .. => true
  | _ => false

theorem Contents.foldl_put_perm {l l' : List Item} (hperm : l.Perm l')
    (hnodup : (l.map Item.key).Nodup) (m : Contents)
    : (l.map fun item => Op.put item.key item.data).foldl Contents.update m
        = (l'.map fun item => Op.put item.key item.data).foldl Contents.update m := by
  rw [foldl_map, foldl_map]
  apply hperm.foldl_eq'
  intro a ha b hb m
  by_cases hab : a = b
  . rw [hab]
  have hkey : a.key ≠ b.key := fun heq => hab (inj_on_of_nodup_map hnodup ha hb heq)
  simp only [Contents.update, Contents.insert]
  split
  . split
    . exact Function.update_comm hkey _ _ _
    . rfl
  . rfl

variable [Sha512Half]

theorem leaves_ofTrie (t : Trie) : (ofTrie t).leaves = t.items.map itemOf := by
  induction t with
  | nil => rfl
  | leaf => rfl
  | inner c ih =>
    rw [Tree.items_inner, map_flatMap, ofTrie, InnerNode.toNode, Node.leaves]
    simp only [InnerNode.ofChildren_children, ih]

theorem eq_inner_of_ofTrie {hash : Hash256}
    (h : .inner children hashes isBranch hash = ofTrie t)
    : ∃ c, t = .inner c ∧ ∀ i, children i = ofTrie (c i) := by
  cases t with
  | nil => cases h
  | leaf => cases h
  | inner c =>
    refine ⟨c, rfl, ?_⟩
    have hchildren : children = (rootOf c).children := by
      rw [ofTrie_inner, InnerNode.toNode] at h
      exact (Node.inner.inj h).1
    intro i
    rw [hchildren, rootOf, InnerNode.ofChildren_children]

theorem descendant_ofTrie (h : m.Descendant n) (hm : m = ofTrie t)
    (hc : ∀ {c}, t = .inner c → ∀ i, (c i).Compact)
    : ∃ t' : Trie, n = ofTrie t' ∧ t'.Compact := by
  induction h generalizing t with
  | child children hashes isBranch hash i =>
    obtain ⟨c, ht, hchildren⟩ := eq_inner_of_ofTrie hm
    exact ⟨c i, hchildren i, hc ht i⟩
  | deeper children hashes isBranch hash i h ih =>
    obtain ⟨c, ht, hchildren⟩ := eq_inner_of_ofTrie hm
    apply ih (hchildren i)
    intro c' hc' j
    have hci := hc ht i
    rw [hc'] at hci
    exact hci.child j

theorem mapType_putItemUnsafe (sm : SHAMap) (item : Item)
    : (sm.putItemUnsafe item).2.mapType = sm.mapType := by
  unfold putItemUnsafe putItemWithNodeTypeUnsafe
  split
  . rfl
  unfold assignRoot
  split <;> rfl

theorem mapType_exec (sm : SHAMap) (op : Op) : (op.exec sm).2.mapType = sm.mapType := by
  cases op with
  | put key data =>
    simp only [Op.exec, put]
    split
    . rfl
    . exact mapType_putItemUnsafe sm _
  | putItemsAtomically items =>
    simp only [Op.exec, putItemsAtomically]
    split
    . rfl
    . split <;> rfl
  | delete key =>
    simp only [Op.exec, delete]
    split
    . rfl
    split
    . rfl
    . split <;> rfl

theorem mapType_run (sm : SHAMap) (ops : List Op) : (sm.run ops).mapType = sm.mapType := by
  induction ops generalizing sm with
  | nil => rfl
  | cons op ops ih => exact (ih _).trans (mapType_exec sm op)

namespace Holds

variable {sm sm' : SHAMap}

theorem eq_of_contents (h : sm.Holds c m) (h' : sm'.Holds c' m) (htype : sm.mapType = sm'.mapType)
    : sm = sm' := by
  have hkind : sm.leafKind = sm'.leafKind := by
    unfold leafKind
    rw [htype]
  have hc : Tree.inner c = Tree.inner c' := by
    apply h.repr.canonical.eq_of_mem_iff h'.repr.canonical
    intro x
    rw [h.mem_items_iff, h'.mem_items_iff, hkind]
  have hroot : sm.root = sm'.root := by
    rw [h.repr.root, h'.repr.root, Tree.inner.inj hc]
  have hstate : sm.state = sm'.state := by
    rw [h.state, h'.state]
  cases sm
  cases sm'
  simp_all

theorem two_le_leaves (h : sm.Holds c m) (hn : sm.root.toNode.Descendant n)
    (hinner : n.isInner = true)
    : 2 ≤ n.leaves.length := by
  rw [h.repr.root] at hn
  obtain ⟨t, rfl, ht⟩ := descendant_ofTrie hn (ofTrie_inner c).symm (by
    intro c' hc' i
    cases hc'
    exact h.repr.canonical.2 i)
  cases t with
  | nil => cases hinner
  | leaf => cases hinner
  | inner c' =>
    rw [leaves_ofTrie, length_map]
    exact ht.two_le

theorem contents_eq (h : sm.Holds c m) (h' : sm'.Holds c' m')
    (hget : ∀ key, sm.get key = sm'.get key)
    : m = m' := by
  funext key
  have := hget key
  rw [h.get_eq, h'.get_eq, Except.ok.injEq] at this
  apply Option.map_injective (f := fun data => ({ key, data } : Item)) _ this
  intro a b hab
  exact (Item.mk.inj hab).2

theorem contents_of_get_none (h : sm.Holds c m) (hget : sm.get key = .ok none)
    : m key = none := by
  rw [h.get_eq, Except.ok.injEq, Option.map_eq_none_iff] at hget
  exact hget

theorem put_delete_eq (h : sm.Holds c m) (hm : m key = none)
    : ((sm.put key data).2.delete key).2 = sm := by
  obtain ⟨c₁, h₁⟩ := h.exec (.put key data)
  obtain ⟨c₂, h₂⟩ := h₁.exec (.delete key)
  have hsame : (m.update (.put key data)).update (.delete key) = m := by
    simp only [Contents.update, Contents.insert]
    split
    . rw [Function.update_idem, ← hm, Function.update_eq_self]
    . rw [← hm, Function.update_eq_self]
  rw [hsame] at h₂
  exact h₂.eq_of_contents h ((mapType_exec _ _).trans (mapType_exec _ _))

end Holds

/--
Two maps reached by any operations that have the same contents are the same tree and have the same
hash.
-/
theorem run_canonical (ops ops' : List Op)
    : let sm := (new .state).run ops
      let sm' := (new .state).run ops'
      ((∀ key, sm.get key = sm'.get key) → sm.root = sm'.root ∧ sm.hash = sm'.hash)
        ∧ (∀ l l' : List Item, l.Perm l' → (l.map Item.key).Nodup →
            (sm.run (l.map fun item => .put item.key item.data)).hash
              = (sm.run (l'.map fun item => .put item.key item.data)).hash)
        ∧ (∀ key data, sm.get key = .ok none → ((sm.put key data).2.delete key).2.hash = sm.hash)
        ∧ ∀ n, sm.root.toNode.Descendant n → n.isInner = true → 2 ≤ n.leaves.length := by
  intro sm sm'
  obtain ⟨c, h⟩ := (holds_new .state).run ops
  obtain ⟨c', h'⟩ := (holds_new .state).run ops'
  have htype : ∀ ops, ((new .state).run ops).mapType = .state := fun ops => mapType_run _ ops
  refine ⟨?_, ?_, ?_, fun n => h.two_le_leaves⟩
  . intro hget
    rw [← h.contents_eq h' hget] at h'
    have := h.eq_of_contents h' ((htype ops).trans (htype ops').symm)
    simp only [sm, sm', this, and_self]
  . intro l l' hperm hnodup
    obtain ⟨d, hd⟩ := h.run (l.map fun item => .put item.key item.data)
    obtain ⟨d', hd'⟩ := h.run (l'.map fun item => .put item.key item.data)
    rw [← Contents.foldl_put_perm hperm hnodup] at hd'
    rw [hd.eq_of_contents hd' ((mapType_run _ _).trans (mapType_run _ _).symm)]
  intro key data hget
  rw [h.put_delete_eq (h.contents_of_get_none hget)]

end SHAMap
