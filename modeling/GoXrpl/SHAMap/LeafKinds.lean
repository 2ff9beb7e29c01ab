import GoXrpl.SHAMap.Lemmas.Mutation

/-!
This module contains what an operation on one key does to the leaves of the others.
-/

namespace SHAMap

open Radix

def leafOf (sm : SHAMap) (key : Hash256) : Option Node :=
  match walkToKey sm.root key false with
  | .ok (.leaf kind item hash, _) =>
    if item.key = key then some (.leaf kind item hash) else none
  | _ => none

def Node.kind? : Node → Option LeafKind
  | .leaf kind _ _ => some kind
  | _ => none

inductive TypedOp where
  | put (key : Hash256) (data : List UInt8)
  | putWithNodeType (key : Hash256) (data : List UInt8) (nodeType : NodeType)
  | delete (key : Hash256)

def TypedOp.key : TypedOp → Hash256
  | put key _ => key
  | putWithNodeType key _ _ => key
  | delete key => key

section

theorem kept_pair_iff (hne : a ≠ b) (hitems : ∀ x, x ∈ t.items ↔ x = (b, v) ∨ x = (a, u))
    (x : Hash256 × (LeafKind × List UInt8))
    : Tree.Kept getBranchAtDepth g t a 1 x
        ↔ x = (b, if getBranchAtDepth a 0 = getBranchAtDepth b 0 then g v else v) := by
  have hlone : Tree.Lone getBranchAtDepth t a 1 b ↔ getBranchAtDepth a 0 = getBranchAtDepth b 0 := by
    constructor
    . rintro ⟨e, he, hagree, _⟩
      exact (hagree 0 he).symm
    intro hdigit
    refine ⟨1, Nat.le_refl 1, ?_, ?_⟩
    . intro j hj
      rw [Nat.lt_one_iff.mp hj]
      exact hdigit.symm
    intro z hz _
    rcases (hitems z).mp hz with rfl | rfl
    . exact .inr rfl
    . exact .inl rfl
  constructor
  . rintro ⟨hxa, w, hw, hval⟩
    rcases (hitems _).mp hw with heq | heq
    . cases heq
      rw [hlone] at hval
      refine Prod.ext rfl ?_
      split
      . next hdigit => simpa [hdigit] using hval
      . next hdigit => simpa [hdigit] using hval
    cases heq
    exact absurd rfl hxa
  rintro rfl
  refine ⟨hne.symm, v, (hitems _).mpr (.inl rfl), ?_⟩
  show Tree.Lone getBranchAtDepth t a 1 b ∧ _ ∨ ¬ Tree.Lone getBranchAtDepth t a 1 b ∧ _
  rw [hlone]
  split
  . next hdigit => exact .inl ⟨hdigit, rfl⟩
  . next hdigit => exact .inr ⟨hdigit, rfl⟩

variable [Sha512Half]

def TypedOp.exec (sm : SHAMap) : TypedOp → Except Error Unit × SHAMap
  | .put key data => sm.put key data
  | .putWithNodeType key data nodeType => sm.putWithNodeType key data nodeType
  | .delete key => sm.delete key

def runTyped (sm : SHAMap) (ops : List TypedOp) : SHAMap :=
  ops.foldl (fun sm op => (op.exec sm).2) sm

def Frames (sm : SHAMap) (op : TypedOp) : Prop :=
  ∀ key, key ≠ op.key → sm.leafOf key ≠ none → (op.exec sm).2.leafOf key = sm.leafOf key

def Companion (sm : SHAMap) (key other : Hash256) : Prop :=
  ∃ d, 1 ≤ d ∧ (∀ e < d, getBranchAtDepth other e = getBranchAtDepth key e)
    ∧ ∀ z, sm.leafOf z ≠ none → (∀ e < d, getBranchAtDepth z e = getBranchAtDepth key e)
      → z = key ∨ z = other

def Harmless (sm : SHAMap) (op : TypedOp) : Prop :=
  ∀ key, op = .delete key → sm.leafOf key ≠ none →
    ∀ other leaf, other ≠ key → sm.leafOf other = some leaf → sm.Companion key other →
      leaf.kind? = some sm.leafKind

variable {sm : SHAMap}

theorem leafNode_injective (key : Hash256) : Function.Injective (leafNode key) := by
  intro a a' h
  simp only [leafNode, Node.leaf.injEq, Item.mk.injEq, true_and] at h
  exact Prod.ext h.1 h.2.1

theorem Typed.leafOf_eq (h : sm.Typed c) (key : Hash256)
    : sm.leafOf key = ((Tree.inner c).lookup getBranchAtDepth key 0).map (leafNode key) := by
  unfold leafOf walkToKey
  rw [h.root, ← ofTrie_inner]
  obtain ⟨stack, ⟨k, a, hwalk, hlookup⟩ | ⟨hwalk, hlookup⟩⟩ :=
    walkToKey.go_lookup newRootNodeID [] (onPath_root h.canonical key)
  . rw [hwalk, show newRootNodeID.depth = 0 from rfl] at *
    rw [hlookup]
    by_cases hk : key = k
    . subst hk
      simp [leafNode]
    rw [if_neg hk]
    simp only [leafNode]
    rw [if_neg fun heq => hk heq.symm]
    rfl
  rw [hwalk, show newRootNodeID.depth = 0 from rfl] at *
  rw [hlookup]
  rfl

theorem Typed.leafOf_eq_some_iff (h : sm.Typed c)
    : sm.leafOf key = some (leafNode key a) ↔ (key, a) ∈ (Tree.inner c).items := by
  rw [h.leafOf_eq, ← Tree.lookup_eq_some_iff h.canonical.1]
  exact (Option.map_injective (leafNode_injective key)).eq_iff' rfl

theorem Typed.leafOf_cases (h : sm.Typed c) (key : Hash256)
    : (sm.leafOf key = none ∧ ∀ a, (key, a) ∉ (Tree.inner c).items)
      ∨ ∃ a, sm.leafOf key = some (leafNode key a) ∧ (key, a) ∈ (Tree.inner c).items := by
  cases hlookup : (Tree.inner c).lookup getBranchAtDepth key 0 with
  | none =>
    left
    constructor
    . rw [h.leafOf_eq, hlookup]
      rfl
    intro a ha
    rw [← Tree.lookup_eq_some_iff h.canonical.1, hlookup] at ha
    cases ha
  | some a =>
    right
    refine ⟨a, ?_, (Tree.lookup_eq_some_iff h.canonical.1).mp hlookup⟩
    rw [h.leafOf_eq, hlookup]
    rfl

theorem Typed.leafOf_ne_none_iff (h : sm.Typed c)
    : sm.leafOf key ≠ none ↔ ∃ a, (key, a) ∈ (Tree.inner c).items := by
  rcases h.leafOf_cases key with ⟨hnone, habsent⟩ | ⟨a, hsome, hmem⟩
  . simp [hnone, habsent]
  rw [hsome]
  exact ⟨fun _ => ⟨a, hmem⟩, fun _ => Option.some_ne_none _⟩

theorem Typed.companion_iff (h : sm.Typed c)
    : sm.Companion key other ↔ Tree.Lone getBranchAtDepth (.inner c) key 1 other := by
  unfold Companion Tree.Lone
  simp only [h.leafOf_ne_none_iff]
  constructor
  . rintro ⟨d, hd, hagree, halone⟩
    exact ⟨d, hd, hagree, fun z hz => halone z.1 ⟨z.2, hz⟩⟩
  rintro ⟨d, hd, hagree, halone⟩
  refine ⟨d, hd, hagree, ?_⟩
  rintro z ⟨a, ha⟩
  exact halone (z, a) ha

inductive Effect (sm : SHAMap) (op : TypedOp) (c c' : Fin branchFactor → Trie) : Prop where
  | same (hop : ∀ key, op = .delete key → ∀ a, (key, a) ∉ (Tree.inner c).items) (h : c' = c)
  | stored (a : LeafKind × List UInt8) (hop : ∀ key, op ≠ .delete key)
      (h : ∀ x, x ∈ (Tree.inner c').items
        ↔ x = (op.key, a) ∨ (x ∈ (Tree.inner c).items ∧ x.1 ≠ op.key))
  | removed (hop : op = .delete op.key) (hmem : ∃ a, (op.key, a) ∈ (Tree.inner c).items)
      (h : ∀ x, x ∈ (Tree.inner c').items
        ↔ Tree.Kept getBranchAtDepth sm.retype (.inner c) op.key 1 x)

theorem createLeafNode_cases (nodeType : NodeType) (item : Item)
    : (∃ e, createLeafNode nodeType item = .error e)
      ∨ (12 ≤ item.data.length
        ∧ ∃ kind, createLeafNode nodeType item = .ok (leafNode item.key (kind, item.data))) := by
  by_cases hlen : item.data.length < 12
  . left
    cases nodeType with
    | inner => exact ⟨_, rfl⟩
    | transactionNoMeta => exact ⟨_, if_pos hlen⟩
    | transactionWithMeta => exact ⟨_, if_pos hlen⟩
    | accountState => exact ⟨_, if_pos hlen⟩
  cases nodeType with
  | inner => exact .inl ⟨_, rfl⟩
  | transactionNoMeta => exact .inr ⟨Nat.le_of_not_lt hlen, _, if_neg hlen⟩
  | transactionWithMeta => exact .inr ⟨Nat.le_of_not_lt hlen, _, if_neg hlen⟩
  | accountState => exact .inr ⟨Nat.le_of_not_lt hlen, _, if_neg hlen⟩

structure Reached (sm : SHAMap) (c : Fin branchFactor → Trie) : Prop where
  typed : sm.Typed c
  state : sm.state = .modifying

namespace Reached

theorem stored (h : sm.Reached c) (hlen : 12 ≤ a.2.length)
    (hinsert : Tree.inner c' = (Tree.inner c).insert getBranchAtDepth maxDepth key a 0)
    : Reached { sm with root := rootOf c' } c'
        ∧ ∀ x, x ∈ (Tree.inner c').items
            ↔ x = (key, a) ∨ (x ∈ (Tree.inner c).items ∧ x.1 ≠ key) := by
  have hitems : ∀ x, x ∈ (Tree.inner c').items
      ↔ x = (key, a) ∨ (x ∈ (Tree.inner c).items ∧ x.1 ≠ key) := by
    intro x
    rw [hinsert]
    exact Tree.mem_items_insert separates_getBranchAtDepth h.typed.canonical.1
      (Tree.below_zero key _)
  refine ⟨⟨⟨rfl, ?_, ?_⟩, h.state⟩, hitems⟩
  . rw [hinsert]
    exact h.typed.canonical.insert separates_getBranchAtDepth
  intro x hx
  rcases (hitems x).mp hx with rfl | ⟨hx, _⟩
  . exact hlen
  . exact h.typed.long x hx

theorem putItemWithNodeType_ok (h : sm.Reached c) (hlen : 12 ≤ item.data.length)
    (hleaf : createLeafNode nodeType item = .ok (leafNode item.key (kind, item.data)))
    : ∃ c', (sm.putItemWithNodeTypeUnsafe item nodeType).2 = { sm with root := rootOf c' }
        ∧ Reached { sm with root := rootOf c' } c'
        ∧ ∀ x, x ∈ (Tree.inner c').items
            ↔ x = (item.key, kind, item.data) ∨ (x ∈ (Tree.inner c).items ∧ x.1 ≠ item.key) := by
  obtain ⟨c', hput, hinsert⟩ := putItemWithNodeTypeUnsafe_eq_ok h.typed h.state hleaf
  refine ⟨c', ?_, h.stored hlen hinsert⟩
  rw [hput]

theorem putItemWithNodeType (h : sm.Reached c) (item : Item) (nodeType : NodeType)
    : (sm.putItemWithNodeTypeUnsafe item nodeType).2 = sm
      ∨ ∃ c' a, (sm.putItemWithNodeTypeUnsafe item nodeType).2 = { sm with root := rootOf c' }
        ∧ Reached { sm with root := rootOf c' } c'
        ∧ ∀ x, x ∈ (Tree.inner c').items
            ↔ x = (item.key, a) ∨ (x ∈ (Tree.inner c).items ∧ x.1 ≠ item.key) := by
  rcases createLeafNode_cases nodeType item with ⟨e, hleaf⟩ | ⟨hlen, kind, hleaf⟩
  . left
    obtain ⟨err, hput⟩ := putItemWithNodeTypeUnsafe_eq_error h.typed hleaf
    rw [hput]
  right
  obtain ⟨c', hput, hreached, hitems⟩ := h.putItemWithNodeType_ok hlen hleaf
  exact ⟨c', (kind, item.data), hput, hreached, hitems⟩

theorem delete (h : sm.Reached c) (hmem : ∃ a, (key, a) ∈ (Tree.inner c).items)
    : ∃ c', (sm.delete key).2 = { sm with root := rootOf c' }
        ∧ Reached { sm with root := rootOf c' } c'
        ∧ ∀ x, x ∈ (Tree.inner c').items
            ↔ Tree.Kept getBranchAtDepth sm.retype (.inner c) key 1 x := by
  obtain ⟨a, ha⟩ := hmem
  obtain ⟨c', hdelete, herase⟩ := delete_eq_ok h.typed h.state ha
  have hitems : ∀ x, x ∈ (Tree.inner c').items
      ↔ Tree.Kept getBranchAtDepth sm.retype (.inner c) key 1 x := by
    intro x
    rw [herase]
    exact h.typed.canonical.mem_items_eraseRootWith sm.retype_retype ⟨a, ha⟩
  refine ⟨c', by rw [hdelete], ⟨⟨rfl, ?_, ?_⟩, h.state⟩, hitems⟩
  . rw [herase]
    exact h.typed.canonical.eraseRootWith
  intro x hx
  obtain ⟨_, b, hb, ⟨_, hval⟩ | ⟨_, hval⟩⟩ := (hitems x).mp hx
  . rw [hval]
    exact h.typed.long _ hb
  rw [hval]
  exact h.typed.long _ hb

theorem exec (h : sm.Reached c) (op : TypedOp)
    : ∃ c', (op.exec sm).2 = { sm with root := rootOf c' }
        ∧ Reached { sm with root := rootOf c' } c' ∧ Effect sm op c c' := by
  have hsame : sm = { sm with root := rootOf c } := by
    rw [← h.typed.root]
  have hput : ∀ item nodeType, (∀ key, op ≠ .delete key) → op.key = item.key →
      (op.exec sm).2 = (sm.putItemWithNodeTypeUnsafe item nodeType).2 →
      ∃ c', (op.exec sm).2 = { sm with root := rootOf c' }
        ∧ Reached { sm with root := rootOf c' } c' ∧ Effect sm op c c' := by
    intro item nodeType hop hkey hexec
    rw [hexec]
    rcases h.putItemWithNodeType item nodeType with heq | ⟨c', a, heq, hreached, hitems⟩
    . refine ⟨c, heq.trans hsame, hsame ▸ h, .same ?_ rfl⟩
      intro key hdelete
      exact absurd hdelete (hop key)
    refine ⟨c', heq, hreached, .stored a hop ?_⟩
    rw [hkey]
    exact hitems
  cases op with
  | put key data =>
    refine hput { key, data } sm.getLeafNodeType (by simp) rfl ?_
    simp [TypedOp.exec, SHAMap.put, h.state, putItemUnsafe]
  | putWithNodeType key data nodeType =>
    refine hput { key, data } nodeType (by simp) rfl ?_
    simp [TypedOp.exec, SHAMap.putWithNodeType, h.state]
  | delete key =>
    by_cases hmem : ∃ a, (key, a) ∈ (Tree.inner c).items
    . obtain ⟨c', heq, hreached, hitems⟩ := h.delete hmem
      exact ⟨c', heq, hreached, .removed rfl hmem hitems⟩
    have habsent : ∀ a, (key, a) ∉ (Tree.inner c).items := fun a ha => hmem ⟨a, ha⟩
    refine ⟨c, ?_, hsame ▸ h, .same ?_ rfl⟩
    . rw [TypedOp.exec, delete_eq_error h.typed h.state habsent]
      exact hsame
    intro key' heq
    cases heq
    exact habsent

theorem new (mapType : MapType) : Reached (SHAMap.new mapType) Tree.noChildren where
  typed :=
    {
      root := newInnerNode_eq_rootOf
      canonical := ⟨fun i => ⟨by simp, trivial⟩, fun _ => trivial⟩
      long := by simp
    }
  state := rfl

theorem runTyped (h : sm.Reached c) (ops : List TypedOp) : ∃ c', Reached (sm.runTyped ops) c' := by
  induction ops generalizing sm c with
  | nil => exact ⟨c, h⟩
  | cons op ops ih =>
    obtain ⟨c', heq, hreached, _⟩ := h.exec op
    rw [SHAMap.runTyped, List.foldl_cons, heq]
    exact ih hreached

end Reached

theorem Typed.kind?_of_leafOf (h : sm.Typed c) (hleaf : sm.leafOf key = some leaf)
    : ∃ a, leaf = leafNode key a ∧ leaf.kind? = some a.1 ∧ (key, a) ∈ (Tree.inner c).items := by
  rcases h.leafOf_cases key with ⟨hnone, _⟩ | ⟨a, hsome, hmem⟩
  . rw [hnone] at hleaf
    cases hleaf
  rw [hsome] at hleaf
  cases hleaf
  exact ⟨a, rfl, rfl, hmem⟩

theorem frames_iff_of_removed
    (h : sm.Typed c) (h' : sm'.Typed c') (hexec : (op.exec sm).2 = sm') (hop : op = .delete op.key)
    (hmem : ∃ a, (op.key, a) ∈ (Tree.inner c).items)
    (hitems : ∀ x, x ∈ (Tree.inner c').items
      ↔ Tree.Kept getBranchAtDepth sm.retype (.inner c) op.key 1 x)
    : sm.Frames op ↔ sm.Harmless op := by
  constructor
  . intro hframes key hdelete _ other leaf hne hleaf hcompanion
    have hkey : op.key = key := by rw [hdelete]; rfl
    subst hkey
    obtain ⟨a, rfl, hkind, ha⟩ := h.kind?_of_leafOf hleaf
    have hlone := h.companion_iff.mp hcompanion
    have hkept : (other, sm.retype a) ∈ (Tree.inner c').items :=
      (hitems _).mpr ⟨hne, a, ha, .inl ⟨hlone, rfl⟩⟩
    have hsame := hframes other hne (by simp [hleaf])
    rw [hexec, h'.leafOf_eq_some_iff.mpr hkept, hleaf, Option.some_inj] at hsame
    rw [hkind, ← leafNode_injective other hsame]
    rfl
  intro hharmless key hne hpresent
  obtain ⟨a, ha⟩ := h.leafOf_ne_none_iff.mp hpresent
  have hleaf := h.leafOf_eq_some_iff.mpr ha
  rw [hexec, hleaf, h'.leafOf_eq_some_iff, hitems]
  refine ⟨hne, a, ha, ?_⟩
  by_cases hlone : Tree.Lone getBranchAtDepth (.inner c) op.key 1 key
  . left
    refine ⟨hlone, ?_⟩
    have hkind := hharmless op.key hop (h.leafOf_ne_none_iff.mpr hmem) key _ hne hleaf
      (h.companion_iff.mpr hlone)
    exact Prod.ext (Option.some_inj.mp hkind) rfl
  right
  exact ⟨hlone, rfl⟩

theorem Reached.frames_iff (h : sm.Reached c) (op : TypedOp) : sm.Frames op ↔ sm.Harmless op := by
  obtain ⟨c', hexec, hreached, heffect⟩ := h.exec op
  cases heffect with
  | same hop heq =>
    subst heq
    constructor
    . intro _ key hdelete hpresent
      obtain ⟨a, ha⟩ := h.typed.leafOf_ne_none_iff.mp hpresent
      exact absurd ha (hop key hdelete a)
    intro _ key _ _
    rw [hexec, hreached.typed.leafOf_eq, h.typed.leafOf_eq]
  | stored a hop hitems =>
    constructor
    . intro _ key hdelete
      exact absurd hdelete (hop key)
    intro _ key hne hpresent
    obtain ⟨b, hb⟩ := h.typed.leafOf_ne_none_iff.mp hpresent
    rw [hexec, h.typed.leafOf_eq_some_iff.mpr hb, hreached.typed.leafOf_eq_some_iff, hitems]
    exact .inr ⟨hb, hne⟩
  | removed hop hmem hitems =>
    exact frames_iff_of_removed h.typed hreached.typed hexec hop hmem hitems

theorem Typed.root_eq {sm' : SHAMap} (h : sm.Typed c)
    (h' : sm'.Typed c') (hitems : ∀ x, x ∈ (Tree.inner c).items ↔ x ∈ (Tree.inner c').items)
    : sm.root = sm'.root := by
  have heq := h.canonical.eq_of_mem_iff h'.canonical hitems
  cases heq
  rw [h.root, h'.root]

theorem Reached.exec_put (h : sm.Reached c) (op : TypedOp) (key : Hash256)
    (kind : LeafKind) (hlen : 12 ≤ data.length)
    (hop : op = .put key data ∧ kind = sm.leafKind
      ∨ op = .putWithNodeType key data .transactionWithMeta ∧ kind = .transactionWithMeta)
    : ∃ c', Reached (op.exec sm).2 c' ∧ (op.exec sm).2.mapType = sm.mapType
        ∧ ∀ x, x ∈ (Tree.inner c').items
            ↔ x = (key, kind, data) ∨ (x ∈ (Tree.inner c).items ∧ x.1 ≠ key) := by
  have hshort : ¬ data.length < 12 := Nat.not_lt.mpr hlen
  have hput : ∃ nodeType, (op.exec sm).2 = (sm.putItemWithNodeTypeUnsafe { key, data } nodeType).2
      ∧ createLeafNode nodeType { key, data } = .ok (leafNode key (kind, data)) := by
    rcases hop with ⟨rfl, rfl⟩ | ⟨rfl, rfl⟩
    . refine ⟨sm.getLeafNodeType, ?_, ?_⟩
      . simp [TypedOp.exec, SHAMap.put, h.state, putItemUnsafe]
      . rw [createLeafNode_eq, if_neg hshort]
    refine ⟨.transactionWithMeta, ?_, if_neg hshort⟩
    simp [TypedOp.exec, SHAMap.putWithNodeType, h.state]
  obtain ⟨nodeType, hexec, hleaf⟩ := hput
  obtain ⟨c', heq, hreached, hitems⟩ := h.putItemWithNodeType_ok hlen hleaf
  rw [hexec, heq]
  exact ⟨c', hreached, rfl, hitems⟩

theorem root_of_pair (mapType : MapType) (hne : a ≠ b) (hlena : 12 ≤ da.length)
    (hlenb : 12 ≤ db.length)
    : ((new mapType).runTyped [.putWithNodeType a da .transactionWithMeta,
          .putWithNodeType b db .transactionWithMeta, .delete a]).root
        = ((new mapType).runTyped
            [if getBranchAtDepth a 0 = getBranchAtDepth b 0 then
              .put b db
            else
              .putWithNodeType b db .transactionWithMeta]).root := by
  obtain ⟨c₁, h₁, htype₁, hitems₁⟩ := (Reached.new mapType).exec_put _ a _ hlena (.inr ⟨rfl, rfl⟩)
  obtain ⟨c₂, h₂, htype₂, hitems₂⟩ := h₁.exec_put _ b _ hlenb (.inr ⟨rfl, rfl⟩)
  have hpair : ∀ x, x ∈ (Tree.inner c₂).items
      ↔ x = (b, .transactionWithMeta, db) ∨ x = (a, .transactionWithMeta, da) := by
    intro x
    rw [hitems₂, hitems₁]
    simp only [Tree.noChildren_apply, Tree.mem_items_inner, Tree.items_nil, List.not_mem_nil,
      exists_false, false_and, or_false]
    constructor
    . rintro (hx | ⟨hx, _⟩)
      . exact .inl hx
      . exact .inr hx
    rintro (rfl | rfl)
    . exact .inl rfl
    . exact .inr ⟨rfl, hne⟩
  obtain ⟨c₃, hdelete, h₃, hitems₃⟩ := h₂.delete ⟨_, (hpair _).mpr (.inr rfl)⟩
  obtain ⟨c₄, h₄, _, hitems₄⟩ := (Reached.new mapType).exec_put
    (if getBranchAtDepth a 0 = getBranchAtDepth b 0 then
      .put b db
    else
      .putWithNodeType b db .transactionWithMeta)
    b
    (if getBranchAtDepth a 0 = getBranchAtDepth b 0 then
      (new mapType).leafKind
    else
      .transactionWithMeta)
    hlenb
    (by
      split
      . exact .inl ⟨rfl, rfl⟩
      . exact .inr ⟨rfl, rfl⟩)
  rw [← hdelete] at h₃
  apply h₃.typed.root_eq h₄.typed
  intro x
  rw [hitems₃, kept_pair_iff hne hpair, hitems₄]
  have hkind : leafKind (((TypedOp.putWithNodeType b db .transactionWithMeta).exec
      ((TypedOp.putWithNodeType a da .transactionWithMeta).exec (new mapType)).2).2)
        = (new mapType).leafKind := by
    unfold leafKind
    rw [htype₂, htype₁]
  simp only [retype, hkind]
  split
  . simp
  . simp

/--
An operation keeps the leaves of the other keys exactly when it does not rebuild a leaf of a foreign
kind.
-/
theorem runTyped_frames_iff (mapType : MapType)
    : (∀ ops op, ((new mapType).runTyped ops).Frames op ↔ ((new mapType).runTyped ops).Harmless op)
      ∧ ∀ a b da db, a ≠ b → 12 ≤ da.length → 12 ≤ db.length →
          ((new mapType).runTyped [.putWithNodeType a da .transactionWithMeta,
              .putWithNodeType b db .transactionWithMeta, .delete a]).root
            = ((new mapType).runTyped
                [if getBranchAtDepth a 0 = getBranchAtDepth b 0 then
                  .put b db
                else
                  .putWithNodeType b db .transactionWithMeta]).root := by
  constructor
  . intro ops op
    obtain ⟨c, h⟩ := (Reached.new mapType).runTyped ops
    exact h.frames_iff op
  intro a b da db hne hlena hlenb
  exact root_of_pair mapType hne hlena hlenb

end

namespace Sample

def data : List UInt8 := List.replicate 12 7

local instance : Sha512Half where
  sum bytes := .replicate 32 (bytes.foldl (· + ·) 0)

theorem runTyped_frames_apart
    : ((new .transaction).runTyped
        [.putWithNodeType (.replicate 32 0) data .transactionWithMeta,
          .putWithNodeType (.replicate 32 16) data .transactionWithMeta,
          .delete (.replicate 32 0)]).root
      = ((new .transaction).runTyped
          [.putWithNodeType (.replicate 32 16) data .transactionWithMeta]).root :=
  (runTyped_frames_iff .transaction).2 _ _ _ _ (by decide) (by decide) (by decide)

theorem delete_changes_kind
    : ¬ ((new .transaction).runTyped
          [.putWithNodeType (.replicate 32 0) data .transactionWithMeta,
            .putWithNodeType (.replicate 32 1) data .transactionWithMeta]).Frames
          (.delete (.replicate 32 0))
      ∧ ((new .transaction).runTyped
          [.putWithNodeType (.replicate 32 0) data .transactionWithMeta,
            .putWithNodeType (.replicate 32 1) data .transactionWithMeta,
            .delete (.replicate 32 0)]).root.hash
        ≠ ((new .transaction).runTyped
            [.putWithNodeType (.replicate 32 1) data .transactionWithMeta]).root.hash := by
  constructor
  . intro hframes
    have hsame := congrArg (Option.bind · Node.kind?)
      (hframes (.replicate 32 1) (by decide) (by decide +kernel))
    revert hsame
    decide +kernel
  . decide +kernel

end Sample

end SHAMap
