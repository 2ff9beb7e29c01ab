import GoXrpl.SHAMap.Impl.Node

/-!
This module contains the map itself, the walks over it that mutation and lookup share, and the
iterator that steps through a map.
-/

inductive SHAMap.MapState where
  | modifying
  | immutable
  | syncing
  | invalid
  deriving DecidableEq, Repr

inductive SHAMap.MapType where
  | transaction
  | state
  deriving DecidableEq, Repr

structure SHAMap where
  root : SHAMap.InnerNode
  mapType : SHAMap.MapType
  state : SHAMap.MapState

namespace SHAMap

def new (mapType : MapType) : SHAMap :=
  {
    root := InnerNode.newInnerNode
    mapType := mapType
    state := .modifying
  }

abbrev NodeStack := List (Node × NodeID)

def walkToKey (root : InnerNode) (key : Hash256) (pushLeaf : Bool)
    : Except Error (Node × NodeStack) :=
  go root.toNode newRootNodeID []
where
  go : Node → NodeID → NodeStack → Except Error (Node × NodeStack)
    | .inner children hashes isBranch hash, nodeID, stack =>
      let inner : InnerNode := ⟨children, hashes, isBranch, hash⟩
      let stack := (inner.toNode, nodeID) :: stack
      let branch := selectBranch nodeID key
      if inner.isEmptyBranch branch then
        .ok (.nil, stack)
      else if (children branch).isNil then
        .ok (.nil, stack)
      else
        match orWrap "failed to get child node ID" (nodeID.childNodeID branch) with
        | .error err => .error err
        | .ok childNodeID => go (children branch) childNodeID stack
    | node, nodeID, stack =>
      .ok (node, if pushLeaf then (node, nodeID) :: stack else stack)

def forBranches {σ : Type} (visit : Fin branchFactor → σ → Bool × σ)
    : List (Fin branchFactor) → σ → Bool × σ
  | [], s => (true, s)
  | i :: is, s =>
    match visit i s with
    | (true, s) => forBranches visit is s
    | (false, s) => (false, s)

def walkLeavesRec {σ : Type} (fn : Item → σ → Bool × σ) : Node → σ → Bool × σ
  | .nil, s => (true, s)
  | .leaf _ item _, s => fn item s
  | .inner children _ _ _, s =>
    forBranches (fun i s => if (children i).isNil then (true, s) else walkLeavesRec fn (children i) s)
      (List.finRange branchFactor) s

def onlyBelow : Node → Option Item
  | .nil => none
  | .leaf _ item _ => some item
  | .inner children _ mask _ =>
    if InnerNode.onesCount16 mask ≠ 1 then
      none
    else
      let branch := InnerNode.trailingZeros16 mask
      if (children branch).isNil then none else onlyBelow (children branch)

def boundBelow (ascending : Bool) : Node → Option Item
  | .nil => none
  | .leaf _ item _ => some item
  | .inner children _ _ _ =>
    let order := List.finRange branchFactor
    (if ascending then order else order.reverse).findSome? fun i =>
      if (children i).isNil then none else boundBelow ascending (children i)

def getLeafNodeType (sm : SHAMap) : NodeType :=
  match sm.mapType with
  | .transaction => .transactionNoMeta
  | .state => .accountState

def hash (sm : SHAMap) : Except Error Hash256 :=
  if sm.state = .invalid then
    .error (.context .errInvalidState "cannot get hash of invalid map")
  else
    .ok sm.root.hash

def findItem (sm : SHAMap) (key : Hash256) : Except Error (Option Item) :=
  match walkToKey sm.root key false with
  | .error err => .error err
  | .ok (.nil, _) => .ok none
  | .ok (.inner .., _) => .error .errInvalidType
  | .ok (.leaf _ item _, _) => .ok (if item.key = key then some item else none)

def get (sm : SHAMap) (key : Hash256) : Except Error (Option Item) := sm.findItem key

def has (sm : SHAMap) (key : Hash256) : Except Error Bool :=
  (sm.findItem key).map Option.isSome

def forEach {σ : Type} (sm : SHAMap) (fn : Item → σ → Bool × σ) (s : σ) : σ :=
  (walkLeavesRec fn sm.root.toNode s).2

def walkBoundStack (root : InnerNode) (id : Hash256) : Except Error NodeStack :=
  go root.toNode newRootNodeID []
where
  go : Node → NodeID → NodeStack → Except Error NodeStack
    | .inner children hashes isBranch hash, nodeID, stack =>
      let inner : InnerNode := ⟨children, hashes, isBranch, hash⟩
      let branch := selectBranch nodeID id
      let stack := (inner.toNode, nodeID) :: stack
      if inner.isEmptyBranch branch then
        .ok stack
      else if (children branch).isNil then
        .ok stack
      else
        match nodeID.childNodeID branch with
        | .error err => .error err
        | .ok childID => go (children branch) childID stack
    | node, nodeID, stack => .ok ((node, nodeID) :: stack)

def searchBranches (children : Fin branchFactor → Node) (ascending : Bool)
    (branches : List (Fin branchFactor))
    : Option Item :=
  branches.findSome? fun branch =>
    if (children branch).isNil then none else boundBelow ascending (children branch)

def popUpper (id : Hash256) : NodeStack → Except Error (Option Item)
  | [] => .ok none
  | (.nil, _) :: _ => .error .errInvalidType
  | (.leaf _ item _, _) :: stack =>
    if compareKeys item.key id > 0 then .ok (some item) else popUpper id stack
  | (.inner children _ _ _, nodeID) :: stack =>
    let after := (List.finRange branchFactor).drop ((selectBranch nodeID id).val + 1)
    match searchBranches children true after with
    | some item => .ok (some item)
    | none => popUpper id stack

def popLower (id : Hash256) : NodeStack → Except Error (Option Item)
  | [] => .ok none
  | (.nil, _) :: _ => .error .errInvalidType
  | (.leaf _ item _, _) :: stack =>
    if compareKeys item.key id < 0 then .ok (some item) else popLower id stack
  | (.inner children _ _ _, nodeID) :: stack =>
    let before := ((List.finRange branchFactor).take (selectBranch nodeID id).val).reverse
    match searchBranches children false before with
    | some item => .ok (some item)
    | none => popLower id stack

structure Iterator where
  current : Option Item
  err : Option Error

def Iterator.at : Except Error (Option Item) → Iterator
  | .error err => { current := none, err := some err }
  | .ok item => { current := item, err := none }

def upperBoundUnsafe (sm : SHAMap) (id : Hash256) : Except Error (Option Item) :=
  match walkBoundStack sm.root id with
  | .error err => .error err
  | .ok stack => popUpper id stack

def lowerBoundUnsafe (sm : SHAMap) (id : Hash256) : Except Error (Option Item) :=
  match walkBoundStack sm.root id with
  | .error err => .error err
  | .ok stack => popLower id stack

def upperBound (sm : SHAMap) (id : Hash256) : Iterator := .at (sm.upperBoundUnsafe id)

def lowerBound (sm : SHAMap) (id : Hash256) : Iterator := .at (sm.lowerBoundUnsafe id)

def next (sm : SHAMap) (it : Iterator) : Bool × Iterator :=
  if it.err.isSome then
    (false, it)
  else
    match it.current with
    | none => (false, it)
    | some item =>
      match sm.upperBoundUnsafe item.key with
      | .error err => (false, { current := none, err := some err })
      | .ok item => (item.isSome, { it with current := item })

end SHAMap
