import GoXrpl.SHAMap.Impl.Traverse

/-!
This module contains the operations that change a SHAMap.
-/

namespace SHAMap

variable [Sha512Half]

def dirtyUp (state : MapState) (stack : NodeStack) (target : Hash256) (child : Node)
    : Except Error Node :=
  if state = .syncing ∨ state = .immutable then
    .error .errInvalidState
  else if child.isNil then
    .error (.new "cannot propagate hash update through a nil child")
  else
    go stack child
where
  go : NodeStack → Node → Except Error Node
    | [], currentChild => .ok currentChild
    | (.inner children hashes isBranch hash, nodeID) :: stack, currentChild =>
      let cloned : InnerNode := ⟨children, hashes, isBranch, hash⟩
      let branch := selectBranch nodeID target
      go stack (cloned.setChild branch currentChild).toNode
    | _ :: _, _ => .error (.new "expected inner node on stack")

def buildChain (key : Hash256) : Nat → Nat → InnerNode → List InnerNode → InnerNode × List InnerNode
  | 0, _, deepestInner, chain => (deepestInner, chain)
  | steps + 1, depth, deepestInner, chain =>
    let branch := getBranchAtDepth key depth
    let child := InnerNode.newInnerNode
    buildChain key steps (depth + 1) child (deepestInner.setChild branch child.toNode :: chain)

def refreshChain (key : Hash256) : InnerNode → List InnerNode → Nat → InnerNode
  | inner, [], _ => inner
  | inner, parent :: chain, depth =>
    refreshChain key (parent.setChild (getBranchAtDepth key depth) inner.toNode) chain (depth - 1)

def splitLeaf (key existingKey : Hash256) (newLeaf existingLeaf : Node) (currentDepth : Nat)
    : InnerNode :=
  let splitDepth := findSplitDepth key existingKey currentDepth
  let (deepestInner, chain) :=
    buildChain key (splitDepth - currentDepth) currentDepth InnerNode.newInnerNode []
  let newBranch := getBranchAtDepth key splitDepth
  let existingBranch := getBranchAtDepth existingKey splitDepth
  let deepestInner := deepestInner.setChild newBranch newLeaf
  let deepestInner := deepestInner.setChild existingBranch existingLeaf
  refreshChain key deepestInner chain (splitDepth - 1)

def putAt (state : MapState) (item : Item) (nodeType : NodeType) (node : Node) (stack : NodeStack)
    : Except Error Node :=
  let key := item.key
  match node with
  | .nil =>
    match orWrap "failed to create leaf" (createLeafNode nodeType item) with
    | .error err => .error err
    | .ok newLeaf => orWrap "failed to dirty up" (dirtyUp state stack key newLeaf)
  | .inner .. => .error .errInvalidType
  | .leaf kind existingItem hash =>
    match createLeafNode nodeType item with
    | .error err => .error err
    | .ok newLeaf =>
      if key = existingItem.key then
        orWrap "failed to dirty up" (dirtyUp state stack key newLeaf)
      else
        let leaf := Node.leaf kind existingItem hash
        let topInner := splitLeaf key existingItem.key newLeaf leaf stack.length
        orWrap "failed to dirty up" (dirtyUp state stack key topInner.toNode)

def putNewRoot (sm : SHAMap) (item : Item) (nodeType : NodeType) : Except Error Node :=
  match orWrap "failed to walk to key" (walkToKey sm.root item.key false) with
  | .error err => .error err
  | .ok (node, stack) => putAt sm.state item nodeType node stack

def assignRoot (sm : SHAMap) (newRoot : Node) (key : Hash256) : SHAMap :=
  match newRoot with
  | .inner children hashes isBranch hash => { sm with root := ⟨children, hashes, isBranch, hash⟩ }
  | newRoot =>
    let branch := selectBranch newRootNodeID key
    { sm with root := InnerNode.newInnerNode.setChild branch newRoot }

def putItemWithNodeTypeUnsafe (sm : SHAMap) (item : Item) (nodeType : NodeType)
    : Except Error Unit × SHAMap :=
  match putNewRoot sm item nodeType with
  | .error err => (.error err, sm)
  | .ok newRoot => (.ok (), sm.assignRoot newRoot item.key)

def putItemUnsafe (sm : SHAMap) (item : Item) : Except Error Unit × SHAMap :=
  sm.putItemWithNodeTypeUnsafe item sm.getLeafNodeType

def putWithNodeType (sm : SHAMap) (key : Hash256) (data : List UInt8) (nodeType : NodeType)
    : Except Error Unit × SHAMap :=
  if sm.state ≠ .modifying then
    (.error .errImmutable, sm)
  else
    sm.putItemWithNodeTypeUnsafe { key, data } nodeType

def put (sm : SHAMap) (key : Hash256) (data : List UInt8) : Except Error Unit × SHAMap :=
  if sm.state ≠ .modifying then
    (.error .errImmutable, sm)
  else
    sm.putItemUnsafe { key, data }

def putStaged (staged : SHAMap) : List (Option Item) → Except Error SHAMap
  | [] => .ok staged
  | none :: _ => .error .errNilItem
  | some item :: items =>
    match staged.putItemUnsafe item with
    | (.error err, _) => .error err
    | (.ok (), staged) => putStaged staged items

def putItemsAtomically (sm : SHAMap) (items : List (Option Item)) : Except Error Unit × SHAMap :=
  if sm.state ≠ .modifying then
    (.error .errImmutable, sm)
  else
    match putStaged { sm with state := .modifying } items with
    | .error err => (.error err, sm)
    | .ok staged => (.ok (), { sm with root := staged.root })

def findAndRemoveLeaf (sm : SHAMap) (key : Hash256) : Except Error NodeStack :=
  match orWrap "failed to walk to key" (walkToKey sm.root key true) with
  | .error err => .error err
  | .ok (_, []) => .error .errItemNotFound
  | .ok (_, (.leaf _ existingItem _, _) :: stack) =>
    if key = existingItem.key then .ok stack else .error .errItemNotFound
  | .ok (_, _ :: _) => .error .errItemNotFound

def consolidate (nodeType : NodeType) (inner : InnerNode) : Except Error Node :=
  match inner.branchCount with
  | 0 => .ok .nil
  | 1 =>
    match onlyBelow inner.toNode with
    | some onlyItem =>
      orWrap "failed to create replacement leaf" (createLeafNode nodeType onlyItem)
    | none => .ok inner.toNode
  | _ => .ok inner.toNode

def consolidateAfterDelete (sm : SHAMap) (stack : NodeStack) (key : Hash256) : Except Error Node :=
  match go stack .nil with
  | .error err => .error err
  | .ok prevNode =>
    if prevNode.isNil then
      .error (.new "unexpected nil root after deletion")
    else
      .ok prevNode
where
  go : NodeStack → Node → Except Error Node
    | [], prevNode => .ok prevNode
    | (.inner children hashes isBranch hash, nodeID) :: stack, prevNode =>
      let inner : InnerNode := ⟨children, hashes, isBranch, hash⟩
      let clonedInner := inner.setChild (selectBranch nodeID key) prevNode
      if nodeID.isRoot then
        go stack clonedInner.toNode
      else
        match consolidate sm.getLeafNodeType clonedInner with
        | .error err => .error err
        | .ok prevNode => go stack prevNode
    | _ :: _, _ => .error .errInvalidType

def delete (sm : SHAMap) (key : Hash256) : Except Error Unit × SHAMap :=
  if sm.state ≠ .modifying then
    (.error .errImmutable, sm)
  else
    match findAndRemoveLeaf sm key with
    | .error err => (.error err, sm)
    | .ok stack =>
      match consolidateAfterDelete sm stack key with
      | .error err => (.error err, sm)
      | .ok (.inner children hashes isBranch hash) =>
        (.ok (), { sm with root := ⟨children, hashes, isBranch, hash⟩ })
      | .ok _ => (.error (.new "expected root to be an inner node, got *shamap.leafNode"), sm)

end SHAMap
