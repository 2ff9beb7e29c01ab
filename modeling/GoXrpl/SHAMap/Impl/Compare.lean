import GoXrpl.SHAMap.Impl.Traverse

/-!
This module contains the comparison of two SHAMaps.
-/

open List

namespace SHAMap

inductive DifferenceType where
  | added
  | removed
  | modified
  deriving DecidableEq, Repr

structure DifferenceItem where
  key : Hash256
  type : DifferenceType
  firstItem : Option Item
  secondItem : Option Item
  deriving DecidableEq

structure DifferenceSet where
  differences : List DifferenceItem
  complete : Bool
  deriving DecidableEq

namespace DifferenceSet

def len (ds : DifferenceSet) : Nat := ds.differences.length

def addDifference (ds : DifferenceSet) (key : Hash256) (diffType : DifferenceType)
    (first second : Option Item) : DifferenceSet :=
  { ds with
    differences := ds.differences ++
      [{ key := key, type := diffType, firstItem := first, secondItem := second }] }

end DifferenceSet

def Node.size : Node → Nat
  | .nil => 1
  | .leaf .. => 1
  | .inner children _ _ _ =>
    1 + (List.finRange branchFactor).foldr (fun i n => (children i).size + n) 0

def stackSize (stack : List Node) : Nat := stack.foldr (fun node n => node.size + n) 0

def pushChildren (children : Fin branchFactor → Node) (nodeStack : List Node) : List Node :=
  (List.finRange branchFactor).foldl
    (fun nodeStack i => if (children i).isNil then nodeStack else children i :: nodeStack) nodeStack

theorem Node.size_pos (n : Node) : 0 < n.size := by
  cases n <;> simp only [Node.size] <;> omega

theorem stackSize_push_le (children : Fin branchFactor → Node) (is : List (Fin branchFactor))
    (nodeStack : List Node)
    : stackSize (is.foldl
        (fun nodeStack i => if (children i).isNil then nodeStack else children i :: nodeStack)
        nodeStack)
        ≤ is.foldr (fun i n => (children i).size + n) 0 + stackSize nodeStack := by
  induction is generalizing nodeStack with
  | nil => simp
  | cons i is ih =>
    rw [foldl_cons, foldr_cons]
    refine Nat.le_trans (ih _) ?_
    split
    . omega
    simp only [stackSize, foldr_cons]
    omega

variable {σ : Type} (emit : DifferenceItem → σ → Bool × σ)

def unmatchedDiff (isFirstMap : Bool) (item : Item) : DifferenceItem :=
  if isFirstMap then
    { key := item.key, type := .removed, firstItem := some item, secondItem := none }
  else
    { key := item.key, type := .added, firstItem := none, secondItem := some item }

def walkBranch (node : Node) (otherMapItem : Option Item) (isFirstMap : Bool) (s : σ)
    : Except Error (Bool × σ) :=
  go [node] otherMapItem.isNone s
where
  go (nodeStack : List Node) (emptyBranch : Bool) (s : σ) : Except Error (Bool × σ) :=
    match nodeStack with
    | .inner children _ _ _ :: nodeStack => go (pushChildren children nodeStack) emptyBranch s
    | .leaf _ item _ :: nodeStack =>
      let isUnmatched :=
        match emptyBranch, otherMapItem with
        | false, some other => !decide (item.key = other.key)
        | _, _ => emptyBranch
      if isUnmatched then
        match emit (unmatchedDiff isFirstMap item) s with
        | (false, s) => .ok (false, s)
        | (true, s) => go nodeStack emptyBranch s
      else
        match otherMapItem with
        | some other =>
          if item.data ≠ other.data then
            let diff : DifferenceItem :=
              {
                key := item.key
                type := .modified
                firstItem := some (if isFirstMap then item else other)
                secondItem := some (if isFirstMap then other else item)
              }
            match emit diff s with
            | (false, s) => .ok (false, s)
            | (true, s) => go nodeStack true s
          else
            go nodeStack true s
        | none => go nodeStack true s
    | .nil :: _ => .error (.new "expected leaf, got <nil>")
    | [] =>
      match emptyBranch, otherMapItem with
      | false, some other =>
        -- the item was not found below the branch
        match emit (unmatchedDiff (!isFirstMap) other) s with
        | (false, s) => .ok (false, s)
        | (true, s) => .ok (true, s)
      | _, _ => .ok (true, s)
  termination_by stackSize nodeStack
  decreasing_by
    all_goals simp only [stackSize, List.foldr_cons, Node.size]
    . have := stackSize_push_le children (List.finRange branchFactor) nodeStack
      simp only [pushChildren, stackSize] at this ⊢
      omega
    all_goals omega

def emitLeafDiff (ourNode otherNode : Node) (s : σ) : Bool × σ :=
  match ourNode, otherNode with
  | .leaf _ ourItem _, .leaf _ otherItem _ =>
    if ourItem.key = otherItem.key then
      if ourItem.data ≠ otherItem.data then
        emit
          {
            key := ourItem.key
            type := .modified
            firstItem := some ourItem
            secondItem := some otherItem
          }
          s
      else
        (true, s)
    else
      match emit (unmatchedDiff true ourItem) s with
      | (false, s) => (false, s)
      | (true, s) =>
        match emit (unmatchedDiff false otherItem) s with
        | (false, s) => (false, s)
        | (true, s) => (true, s)
  | _, _ => (false, s)

def InnerNode.loadChild (n : InnerNode) (index : Fin branchFactor) : Node × Hash256 × Bool :=
  (n.children index, n.hashes index, n.isBranch.getLsbD index)

def Node.liveHash (child : Node) (hash : Hash256) : Hash256 := if child.isNil then hash else child.hash

def diffBranch (ourInner otherInner : InnerNode) (i : Fin branchFactor) (s : σ)
    : Except Error (Option (Node × Node) × Bool × σ) :=
  let (ourChild, ourHash, ourSet) := ourInner.loadChild i
  let (otherChild, otherHash, otherSet) := otherInner.loadChild i
  if ourSet = false ∧ otherSet = false then
    .ok (none, true, s)
  else
    if ourSet = true ∧ otherSet = true
        ∧ ourChild.liveHash ourHash = otherChild.liveHash otherHash then
      .ok (none, true, s)
    else
      match ourChild.isNil, otherChild.isNil with
      | false, false =>
        if ourChild.hash ≠ otherChild.hash then
          .ok (some (ourChild, otherChild), true, s)
        else
          .ok (none, true, s)
      | true, false => (walkBranch emit otherChild none false s).map fun (cont, s) => (none, cont, s)
      | false, true => (walkBranch emit ourChild none true s).map fun (cont, s) => (none, cont, s)
      | true, true => .ok (none, true, s)

def diffInner (ourInner otherInner : InnerNode) (s : σ)
    : Except Error (List (Node × Node) × Bool × σ) :=
  go (List.finRange branchFactor) [] s
where
  go : List (Fin branchFactor) → List (Node × Node) → σ
      → Except Error (List (Node × Node) × Bool × σ)
    | [], newEntries, s => .ok (newEntries, true, s)
    | i :: is, newEntries, s =>
      match diffBranch emit ourInner otherInner i s with
      | .error err => .error err
      | .ok (_, false, s) => .ok ([], false, s)
      | .ok (entry, true, s) => go is (newEntries ++ entry.toList) s

def entriesSize (entries : List (Node × Node)) : Nat := stackSize (entries.map Prod.fst)

theorem stackSize_append (l l' : List Node) : stackSize (l ++ l') = stackSize l + stackSize l' := by
  induction l with
  | nil => simp [stackSize]
  | cons n l ih =>
    simp only [stackSize, cons_append, foldr_cons] at ih ⊢
    omega

theorem stackSize_reverse (l : List Node) : stackSize l.reverse = stackSize l := by
  induction l with
  | nil => rfl
  | cons n l ih =>
    rw [reverse_cons, stackSize_append, ih]
    simp only [stackSize, foldr_cons, foldr_nil]
    omega

variable {emit}

theorem fst_of_diffBranch (h : diffBranch emit ourInner otherInner i s = .ok (some entry, cont, s'))
    : entry.1 = ourInner.children i := by
  unfold diffBranch at h
  dsimp only [InnerNode.loadChild] at h
  split at h
  . cases h
  split at h
  . cases h
  split at h
  . split at h
    . cases h
      rfl
    . cases h
  . cases hwalk : walkBranch emit (otherInner.children i) none false s with
    | error err =>
      rw [hwalk] at h
      cases h
    | ok r =>
      rw [hwalk] at h
      cases h
  . cases hwalk : walkBranch emit (ourInner.children i) none true s with
    | error err =>
      rw [hwalk] at h
      cases h
    | ok r =>
      rw [hwalk] at h
      cases h
  . cases h

theorem diffInner.go_entriesSize
    (h : diffInner.go emit ourInner otherInner is newEntries s = .ok (entries, cont, s'))
    : entriesSize entries
        ≤ entriesSize newEntries
          + is.foldr (fun i n => (ourInner.children i).size + n) 0 := by
  induction is generalizing newEntries s with
  | nil =>
    cases h
    simp
  | cons i is ih =>
    rw [foldr_cons]
    unfold diffInner.go at h
    split at h
    . cases h
    . cases h
      simp [entriesSize, stackSize]
    . next entry s'' hbranch =>
      have hle := ih h
      rw [entriesSize, entriesSize, map_append, stackSize_append] at hle
      cases entry with
      | none =>
        simp only [Option.toList_none, map_nil, stackSize, foldr_nil] at hle
        simp only [entriesSize, stackSize]
        omega
      | some entry =>
        have hfst := fst_of_diffBranch hbranch
        simp only [Option.toList_some, map_cons, map_nil, stackSize, foldr_cons,
          foldr_nil, hfst] at hle
        simp only [entriesSize, stackSize]
        omega

variable (emit)

def diffEntry (ourNode otherNode : Node) (s : σ) : Except Error (List (Node × Node) × Bool × σ) :=
  match ourNode with
  | .nil => .error (.new "missing node during comparison")
  | .leaf ourKind ourItem ourHash =>
    match otherNode with
    | .nil => .error (.new "missing node during comparison")
    | .leaf otherKind otherItem otherHash =>
      .ok ([], emitLeafDiff emit (.leaf ourKind ourItem ourHash)
        (.leaf otherKind otherItem otherHash) s)
    | .inner children hashes isBranch hash =>
      (walkBranch emit (.inner children hashes isBranch hash) (some ourItem) false s).map ([], ·)
  | .inner children hashes isBranch hash =>
    match otherNode with
    | .nil => .error (.new "missing node during comparison")
    | .leaf _ otherItem _ =>
      (walkBranch emit (.inner children hashes isBranch hash) (some otherItem) true s).map ([], ·)
    | .inner otherChildren otherHashes otherIsBranch otherHash =>
      diffInner emit ⟨children, hashes, isBranch, hash⟩
        ⟨otherChildren, otherHashes, otherIsBranch, otherHash⟩ s

variable {emit}

theorem entriesSize_of_diffEntry
    (h : diffEntry emit ourNode otherNode s = .ok (newEntries, cont, s'))
    : entriesSize newEntries < ourNode.size := by
  have hmap : ∀ {r : Except Error (Bool × σ)}, r.map ([], ·) = .ok (newEntries, cont, s') →
      newEntries = [] := by
    intro r hr
    cases r with
    | error err => cases hr
    | ok r =>
      cases hr
      rfl
  have hpos := ourNode.size_pos
  cases ourNode with
  | nil => cases h
  | leaf ourKind ourItem ourHash =>
    cases otherNode with
    | nil => cases h
    | leaf otherKind otherItem otherHash =>
      simp only [diffEntry, Except.ok.injEq, Prod.mk.injEq] at h
      rwa [← h.1]
    | inner => rwa [hmap h]
  | inner children hashes isBranch hash =>
    cases otherNode with
    | nil => cases h
    | leaf => rwa [hmap h]
    | inner =>
      have hle := diffInner.go_entriesSize h
      simp only [entriesSize, map_nil, stackSize, foldr_nil, Node.size] at hle ⊢
      omega

variable (emit)

def diffStack (stack : List (Node × Node)) (s : σ) : Except Error (Bool × σ) :=
  match stack with
  | [] => .ok (true, s)
  | (ourNode, otherNode) :: stack =>
    match h : diffEntry emit ourNode otherNode s with
    | .error err => .error err
    | .ok (_, false, s) => .ok (false, s)
    | .ok (newEntries, true, s) => diffStack (newEntries.reverse ++ stack) s
termination_by entriesSize stack
decreasing_by
  have hlt := entriesSize_of_diffEntry h
  rw [entriesSize, List.map_append, List.map_reverse, stackSize_append, stackSize_reverse]
  simp only [entriesSize, stackSize, List.map_cons, List.foldr_cons] at hlt ⊢
  omega

def diffUnsafe (sm other : SHAMap) (s : σ) : Except Error (Bool × σ) :=
  if sm.root.hash = other.root.hash then
    .ok (true, s)
  else
    diffStack emit [(sm.root.toNode, other.root.toNode)] s

def collectDifference (maxCount : Int) (diff : DifferenceItem) (result : DifferenceSet)
    : Bool × DifferenceSet :=
  let result := result.addDifference diff.key diff.type diff.firstItem diff.secondItem
  (decide (maxCount ≤ 0 ∨ (result.len : Int) < maxCount), result)

def compareContext (sm other : SHAMap) (maxCount : Int) : Except Error DifferenceSet :=
  if sm.state = .invalid ∨ other.state = .invalid then
    .error (.context .errInvalidState "cannot compare invalid SHAMaps")
  else
    match diffUnsafe (collectDifference maxCount) sm other { differences := [], complete := true } with
    | .error err => .error err
    | .ok (complete, result) => .ok { result with complete := complete }

end SHAMap
