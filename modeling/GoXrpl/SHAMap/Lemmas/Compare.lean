import GoXrpl.Emission.Basic
import GoXrpl.SHAMap.Impl.Compare
import GoXrpl.SHAMap.Lemmas.Traverse

open List SHAMap.InnerNode

namespace SHAMap

open Radix Emission

def itemsDiffs (otherMapItem : Option Item) (isFirstMap : Bool)
    : Bool → List Item → List DifferenceItem
  | true, items => items.map (unmatchedDiff isFirstMap)
  | false, [] => (otherMapItem.map (unmatchedDiff !isFirstMap)).toList
  | false, item :: items =>
    match otherMapItem with
    | none => items.map (unmatchedDiff isFirstMap)
    | some other =>
      if item.key = other.key then
        (if item.data ≠ other.data then
          [{
            key := item.key
            type := .modified
            firstItem := some (if isFirstMap then item else other)
            secondItem := some (if isFirstMap then other else item)
          }]
        else
          []) ++ items.map (unmatchedDiff isFirstMap)
      else
        unmatchedDiff isFirstMap item :: itemsDiffs otherMapItem isFirstMap false items

@[simp]
theorem itemsDiffs_true (otherMapItem : Option Item) (isFirstMap : Bool) (items : List Item)
    : itemsDiffs otherMapItem isFirstMap true items = items.map (unmatchedDiff isFirstMap) := by
  unfold itemsDiffs
  rfl

def stackItems (ts : List Trie) : List Item := ts.flatMap fun t => t.items.reverse.map itemOf

def present : Trie → Option Trie
  | .nil => none
  | t => some t

def pushed (c : Fin branchFactor → Trie) : List Trie :=
  (List.finRange branchFactor).reverse.filterMap fun i => present (c i)

theorem stackItems_append (ts ts' : List Trie)
    : stackItems (ts ++ ts') = stackItems ts ++ stackItems ts' := by
  unfold stackItems
  rw [flatMap_append]

theorem stackItems_pushed (c : Fin branchFactor → Trie)
    : stackItems (pushed c) = (Tree.inner c).items.reverse.map itemOf := by
  unfold stackItems pushed
  rw [Tree.items_inner, reverse_flatMap, map_flatMap]
  generalize (finRange branchFactor).reverse = is
  induction is with
  | nil => rfl
  | cons i is ih =>
    rw [filterMap_cons, flatMap_cons, ← ih, Function.comp_apply]
    generalize c i = t
    cases t with
    | nil => rfl
    | leaf => rfl
    | inner => rfl

theorem ne_nil_of_mem_pushed (h : t ∈ pushed c) : t ≠ .nil := by
  unfold pushed at h
  rw [mem_filterMap] at h
  obtain ⟨i, _, hi⟩ := h
  intro ht
  subst ht
  cases hci : c i <;> simp [present, hci] at hi

section

variable [Sha512Half] {σ : Type} {emit : DifferenceItem → σ → Bool × σ}

theorem pushChildren_ofTrie (c : Fin branchFactor → Trie) (nodeStack : List Node)
    : pushChildren (fun i => ofTrie (c i)) nodeStack = (pushed c).map ofTrie ++ nodeStack := by
  unfold pushChildren pushed
  generalize finRange branchFactor = is
  induction is generalizing nodeStack with
  | nil => rfl
  | cons i is ih =>
    rw [foldl_cons, ih, reverse_cons, filterMap_append, map_append,
      append_assoc]
    congr 1
    cases hi : c i with
    | nil => simp [present, hi, Node.isNil]
    | leaf => simp [present, hi, ofTrie]
    | inner => simp [present, hi, ofTrie]

namespace walkBranch

theorem go_leaf (k : Hash256) (a : LeafKind × List UInt8) (nodeStack : List Node)
    (emptyBranch : Bool) (items : List Item) (s : σ)
    (h : ∀ emptyBranch s, go emit otherMapItem isFirstMap nodeStack emptyBranch s
      = .ok (emitAll emit (itemsDiffs otherMapItem isFirstMap emptyBranch items) s))
    : go emit otherMapItem isFirstMap (leafNode k a :: nodeStack) emptyBranch s
        = .ok (emitAll emit
            (itemsDiffs otherMapItem isFirstMap emptyBranch (itemOf (k, a) :: items)) s) := by
  unfold leafNode
  rw [go.eq_def]
  simp only [h, itemOf]
  cases emptyBranch with
  | true =>
    simp only [itemsDiffs, map_cons, emitAll_cons, if_true]
    rcases emit _ s with ⟨_ | _, s⟩ <;> rfl
  | false =>
    cases otherMapItem with
    | none =>
      simp only [itemsDiffs, Bool.false_eq_true, if_false]
    | some other =>
      simp only [itemsDiffs]
      by_cases hkey : k = other.key
      . subst hkey
        by_cases hdata : a.2 = other.data
        . simp [hdata]
        simp only [hdata, decide_true, Bool.not_true, Bool.false_eq_true, if_false, ne_eq,
          not_false_eq_true, if_true, singleton_append, emitAll_cons]
        rcases emit _ s with ⟨_ | _, s⟩ <;> rfl
      simp only [hkey, decide_false, Bool.not_false, if_true, if_false, emitAll_cons]
      rcases emit _ s with ⟨_ | _, s⟩ <;> rfl

theorem go_ofTrie (ts : List Trie) (hts : ∀ t ∈ ts, t ≠ .nil) (emptyBranch : Bool) (s : σ)
    : go emit otherMapItem isFirstMap (ts.map ofTrie) emptyBranch s
        = .ok (emitAll emit
            (itemsDiffs otherMapItem isFirstMap emptyBranch (stackItems ts)) s) := by
  -- the number of nodes on the stack decreases with every turn
  induction hsize : stackSize (ts.map ofTrie) using Nat.strong_induction_on
    generalizing ts emptyBranch s with
  | _ n ih =>
    subst hsize
    cases ts with
    | nil =>
      rw [map_nil, go.eq_def]
      cases emptyBranch with
      | true => rfl
      | false =>
        cases otherMapItem with
        | none => rfl
        | some other =>
          show _ = Except.ok (emitAll emit [_] s)
          rw [emitAll_singleton]
          simp only
          rcases emit _ s with ⟨_ | _, s⟩ <;> rfl
    | cons t ts =>
      have hrest : ∀ t ∈ ts, t ≠ .nil := fun t ht => hts t (mem_cons_of_mem _ ht)
      rw [map_cons]
      cases t with
      | nil => exact absurd rfl (hts .nil mem_cons_self)
      | leaf k a =>
        apply go_leaf
        intro emptyBranch s
        apply ih _ ?_ ts hrest emptyBranch s rfl
        simp only [map_cons, stackSize, foldr_cons]
        have := (ofTrie (.leaf k a)).size_pos
        omega
      | inner c =>
        have hitems : stackItems (.inner c :: ts) = stackItems (pushed c ++ ts) := by
          rw [stackItems_append, stackItems_pushed]
          rfl
        have hstack : pushChildren (rootOf c).children (ts.map ofTrie)
            = (pushed c ++ ts).map ofTrie := by
          rw [rootOf, ofChildren_children, pushChildren_ofTrie, map_append]
        rw [ofTrie_inner, toNode, go.eq_def]
        simp only
        rw [hstack, hitems]
        apply ih _ ?_ _ ?_ emptyBranch s rfl
        . rw [← hstack]
          have := stackSize_push_le (rootOf c).children (finRange branchFactor)
            (ts.map ofTrie)
          simp only [pushChildren, map_cons, stackSize, foldr_cons, ofTrie_inner,
            toNode, Node.size] at this ⊢
          omega
        intro t ht
        rcases mem_append.mp ht with ht | ht
        . exact ne_nil_of_mem_pushed ht
        . exact hrest t ht

end walkBranch

theorem walkBranch_ofTrie (ht : t ≠ .nil) (otherMapItem : Option Item) (isFirstMap : Bool) (s : σ)
    : walkBranch emit (ofTrie t) otherMapItem isFirstMap s
        = .ok (emitAll emit (itemsDiffs otherMapItem isFirstMap otherMapItem.isNone
            (t.items.reverse.map itemOf)) s) := by
  have hitems : stackItems [t] = t.items.reverse.map itemOf := by
    simp [stackItems]
  rw [← hitems]
  apply walkBranch.go_ofTrie [t]
  intro t' ht'
  rwa [mem_singleton.mp ht']

def sideDiffs : Trie → Trie → List DifferenceItem
  | .nil, u => (u.items.reverse.map itemOf).map (unmatchedDiff false)
  | t, .nil => (t.items.reverse.map itemOf).map (unmatchedDiff true)
  | _, _ => []

def Deeper (t u : Trie) : Prop :=
  (ofTrie t).isNil = false ∧ (ofTrie u).isNil = false ∧ (ofTrie t).hash ≠ (ofTrie u).hash

instance (t u : Trie) : Decidable (Deeper t u) :=
  inferInstanceAs (Decidable (_ ∧ _ ∧ _))

def nodes (entry : Trie × Trie) : Node × Node := (ofTrie entry.1, ofTrie entry.2)

theorem diffBranch_rootOf (c c' : Fin branchFactor → Trie) (i : Fin branchFactor) (s : σ)
    : diffBranch emit (rootOf c) (rootOf c') i s
        = .ok (if Deeper (c i) (c' i) then some (nodes (c i, c' i)) else none,
            emitAll emit (sideDiffs (c i) (c' i)) s) := by
  have hset : ∀ c : Fin branchFactor → Trie,
      (rootOf c).isBranch.getLsbD i = !(ofTrie (c i)).isNil := by
    intro c
    rw [rootOf, ofChildren_isBranch, getLsbD_occupancy]
  have hchild : ∀ c : Fin branchFactor → Trie, (rootOf c).children i = ofTrie (c i) := by
    intro c
    rw [rootOf, ofChildren_children]
  unfold diffBranch
  dsimp only [loadChild]
  rw [hset, hset, hchild, hchild]
  by_cases ht : c i = .nil
  . have hnil : (ofTrie (c i)).isNil = true := (isNil_ofTrie _).mpr ht
    have hdeeper : ¬ Deeper (c i) (c' i) := by
      rintro ⟨h, _⟩
      rw [hnil] at h
      cases h
    rw [if_neg hdeeper]
    by_cases hu : c' i = .nil
    . rw [ht, hu]
      rfl
    have hnil' : (ofTrie (c' i)).isNil = false := by
      rw [← Bool.not_eq_true, isNil_ofTrie]
      exact hu
    rw [hnil, hnil', walkBranch_ofTrie hu, ht, if_neg (by simp), if_neg (by simp)]
    simp only [Option.isNone_none, itemsDiffs_true]
    rfl
  have hnil : (ofTrie (c i)).isNil = false := by
    rw [← Bool.not_eq_true, isNil_ofTrie]
    exact ht
  by_cases hu : c' i = .nil
  . have hnil' : (ofTrie (c' i)).isNil = true := (isNil_ofTrie _).mpr hu
    have hdeeper : ¬ Deeper (c i) (c' i) := by
      rintro ⟨_, h, _⟩
      rw [hnil'] at h
      cases h
    have hside : sideDiffs (c i) (c' i)
        = ((c i).items.reverse.map itemOf).map (unmatchedDiff true) := by
      rw [hu]
      cases hci : c i with
      | nil => exact absurd hci ht
      | leaf => rfl
      | inner => rfl
    rw [if_neg hdeeper, hnil, hnil', walkBranch_ofTrie ht, hside, if_neg (by simp),
      if_neg (by simp)]
    simp only [Option.isNone_none, itemsDiffs_true]
    rfl
  have hnil' : (ofTrie (c' i)).isNil = false := by
    rw [← Bool.not_eq_true, isNil_ofTrie]
    exact hu
  have hside : sideDiffs (c i) (c' i) = [] := by
    cases hci : c i with
    | nil => exact absurd hci ht
    | leaf =>
      cases hci' : c' i with
      | nil => exact absurd hci' hu
      | leaf => rfl
      | inner => rfl
    | inner =>
      cases hci' : c' i with
      | nil => exact absurd hci' hu
      | leaf => rfl
      | inner => rfl
  rw [hside, emitAll_nil]
  simp only [Deeper, Node.liveHash, hnil, hnil', Bool.not_false, Bool.true_eq_false, false_and,
    if_false, true_and, Bool.false_eq_true]
  by_cases hhash : (ofTrie (c i)).hash = (ofTrie (c' i)).hash
  . rw [if_pos hhash, if_neg (not_not.mpr hhash)]
  rw [if_neg hhash, if_pos hhash, if_pos hhash]
  rfl

namespace diffInner

def deeper (c c' : Fin branchFactor → Trie) (is : List (Fin branchFactor)) : List (Trie × Trie) :=
  is.filterMap fun i => if Deeper (c i) (c' i) then some (c i, c' i) else none

theorem go_rootOf (c c' : Fin branchFactor → Trie) (is : List (Fin branchFactor))
    (newEntries : List (Node × Node)) (s : σ)
    : go emit (rootOf c) (rootOf c') is newEntries s
        =
      match emitAll emit (is.flatMap fun i => sideDiffs (c i) (c' i)) s with
      | (true, s) => .ok (newEntries ++ (deeper c c' is).map nodes, true, s)
      | (false, s) => .ok ([], false, s) := by
  induction is generalizing newEntries s with
  | nil => simp [go, deeper]
  | cons i is ih =>
    rw [go, diffBranch_rootOf, flatMap_cons, emitAll_append]
    rcases emitAll emit (sideDiffs (c i) (c' i)) s with ⟨_ | _, s⟩
    . rfl
    simp only [ih]
    rcases emitAll emit _ s with ⟨_ | _, s⟩
    . rfl
    simp only [deeper, filterMap_cons]
    split
    . simp
    . simp

end diffInner

def leafDiffs (ourItem otherItem : Item) : List DifferenceItem :=
  if ourItem.key = otherItem.key then
    if ourItem.data ≠ otherItem.data then
      [{
        key := ourItem.key
        type := .modified
        firstItem := some ourItem
        secondItem := some otherItem
      }]
    else
      []
  else
    [unmatchedDiff true ourItem, unmatchedDiff false otherItem]

def pairDiffs : Trie → Trie → List DifferenceItem
  | .leaf k a, .leaf k' a' => leafDiffs (itemOf (k, a)) (itemOf (k', a'))
  | .leaf k a, .inner c' =>
    itemsDiffs (some (itemOf (k, a))) false false ((Tree.inner c').items.reverse.map itemOf)
  | .inner c, .leaf k' a' =>
    itemsDiffs (some (itemOf (k', a'))) true false ((Tree.inner c).items.reverse.map itemOf)
  | .inner c, .inner c' =>
    ((List.finRange branchFactor).flatMap fun i => sideDiffs (c i) (c' i))
      ++ (List.finRange branchFactor).reverse.flatMap fun i =>
        if Deeper (c i) (c' i) then pairDiffs (c i) (c' i) else []
  | _, _ => []

theorem emitLeafDiff_eq (k k' : Hash256) (a a' : LeafKind × List UInt8) (s : σ)
    : emitLeafDiff emit (leafNode k a) (leafNode k' a') s
        = emitAll emit (leafDiffs (itemOf (k, a)) (itemOf (k', a'))) s := by
  simp only [emitLeafDiff, leafNode, leafDiffs, itemOf]
  by_cases hkey : k = k'
  . simp only [hkey, if_true]
    by_cases hdata : a.2 = a'.2
    . simp [hdata]
    . simp only [hdata, ne_eq, not_false_eq_true, if_true, emitAll_singleton]
  simp only [hkey, if_false, emitAll_cons, emitAll_nil]
  rcases emit _ s with ⟨_ | _, s⟩
  . rfl
  simp only
  rcases emit _ s with ⟨_ | _, s⟩ <;> rfl

theorem flatMap_deeper (c c' : Fin branchFactor → Trie)
    : (diffInner.deeper c c' (finRange branchFactor)).reverse.flatMap
        (fun e => pairDiffs e.1 e.2)
        = (finRange branchFactor).reverse.flatMap fun i =>
            if Deeper (c i) (c' i) then pairDiffs (c i) (c' i) else [] := by
  unfold diffInner.deeper
  rw [← filterMap_reverse]
  generalize (finRange branchFactor).reverse = is
  induction is with
  | nil => rfl
  | cons i is ih =>
    rw [filterMap_cons, flatMap_cons, ← ih]
    by_cases hdeeper : Deeper (c i) (c' i)
    . rw [if_pos hdeeper, if_pos hdeeper]
      rfl
    rw [if_neg hdeeper, if_neg hdeeper]
    rfl

def Entries (entries : List (Trie × Trie)) : Prop :=
  ∀ e ∈ entries, e.1 ≠ .nil ∧ e.2 ≠ .nil

theorem entries_deeper (c c' : Fin branchFactor → Trie) (is : List (Fin branchFactor))
    : Entries (diffInner.deeper c c' is) := by
  intro e he
  unfold diffInner.deeper at he
  rw [mem_filterMap] at he
  obtain ⟨i, _, hi⟩ := he
  split at hi
  . next hdeeper =>
    cases hi
    refine ⟨?_, ?_⟩
    . intro hnil
      have := hdeeper.1
      rw [(isNil_ofTrie _).mpr hnil] at this
      cases this
    intro hnil
    have := hdeeper.2.1
    rw [(isNil_ofTrie _).mpr hnil] at this
    cases this
  . cases hi

def Defers (emit : DifferenceItem → σ → Bool × σ) (e : Trie × Trie) : Prop :=
  ∃ now later, Entries later
    ∧ pairDiffs e.1 e.2 = now ++ later.reverse.flatMap (fun e => pairDiffs e.1 e.2)
    ∧ ∀ s : σ, diffEntry emit (ofTrie e.1) (ofTrie e.2) s
        =
      match emitAll emit now s with
      | (true, s) => .ok (later.map nodes, true, s)
      | (false, s) => .ok ([], false, s)

theorem diffEntry_nodes (ht : e.1 ≠ .nil) (hu : e.2 ≠ .nil) : Defers emit e := by
  have hnone : ∀ {now : List DifferenceItem}, pairDiffs e.1 e.2 = now →
      (∀ s : σ, diffEntry emit (ofTrie e.1) (ofTrie e.2) s = .ok ([], emitAll emit now s)) →
      Defers emit e := by
    intro now hpair hentry
    refine ⟨now, [], by simp [Entries], by simp [hpair], ?_⟩
    intro s
    rw [hentry]
    rcases emitAll emit now s with ⟨_ | _, s⟩ <;> rfl
  obtain ⟨t, u⟩ := e
  cases t with
  | nil => exact absurd rfl ht
  | leaf k a =>
    cases u with
    | nil => exact absurd rfl hu
    | leaf k' a' =>
      apply hnone rfl
      intro s
      exact congrArg (fun r => Except.ok ([], r)) (emitLeafDiff_eq k k' a a' s)
    | inner c' =>
      apply hnone rfl
      intro s
      exact congrArg (Except.map ([], ·)) (walkBranch_ofTrie hu (some (itemOf (k, a))) false s)
  | inner c =>
    cases u with
    | nil => exact absurd rfl hu
    | leaf k' a' =>
      apply hnone rfl
      intro s
      exact congrArg (Except.map ([], ·)) (walkBranch_ofTrie ht (some (itemOf (k', a'))) true s)
    | inner c' =>
      refine ⟨(finRange branchFactor).flatMap fun i => sideDiffs (c i) (c' i),
        diffInner.deeper c c' (finRange branchFactor), entries_deeper _ _ _, ?_, ?_⟩
      . rw [flatMap_deeper]
        rfl
      intro s
      exact diffInner.go_rootOf c c' (finRange branchFactor) [] s

theorem diffStack_nodes (entries : List (Trie × Trie)) (hentries : Entries entries) (s : σ)
    : diffStack emit (entries.map nodes) s
        = .ok (emitAll emit (entries.flatMap fun e => pairDiffs e.1 e.2) s) := by
  -- as in the walk of a branch, the number of nodes decreases
  induction hsize : entriesSize (entries.map nodes) using Nat.strong_induction_on
    generalizing entries s with
  | _ n ih =>
    subst hsize
    cases entries with
    | nil =>
      rw [map_nil, diffStack.eq_def]
      rfl
    | cons e entries =>
      obtain ⟨ht, hu⟩ := hentries e mem_cons_self
      obtain ⟨now, later, hlater, hpair, hentry⟩ := diffEntry_nodes ht hu
      have hentry := hentry s
      rw [map_cons, flatMap_cons, hpair, append_assoc, emitAll_append, nodes,
        diffStack.eq_def]
      simp only
      generalize emitAll emit now s = r at hentry
      obtain ⟨cont, s'⟩ := r
      cases cont with
      | false =>
        split
        . next heq =>
          rw [hentry] at heq
          cases heq
        . next heq =>
          rw [hentry] at heq
          cases heq
          rfl
        . next heq =>
          rw [hentry] at heq
          cases heq
      | true =>
        split
        . next heq =>
          rw [hentry] at heq
          cases heq
        . next heq =>
          rw [hentry] at heq
          cases heq
        . next heq =>
          have hlt := entriesSize_of_diffEntry heq
          rw [hentry] at heq
          cases heq
          have hstack : (later.map nodes).reverse ++ entries.map nodes
              = (later.reverse ++ entries).map nodes := by
            rw [map_append, map_reverse]
          rw [hstack, ← flatMap_append]
          apply ih _ ?_ _ ?_ s' rfl
          . rw [← hstack, entriesSize, map_append, map_reverse, stackSize_append,
              stackSize_reverse]
            simp only [entriesSize, stackSize, map_cons, foldr_cons] at hlt ⊢
            simp only [nodes]
            omega
          intro e' he'
          rcases mem_append.mp he' with he' | he'
          . exact hlater e' (mem_reverse.mp he')
          . exact hentries e' (mem_cons_of_mem _ he')

end

end SHAMap
