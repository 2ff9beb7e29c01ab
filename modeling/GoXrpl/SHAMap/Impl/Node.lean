import GoXrpl.Basic
import Mathlib.Logic.Function.Basic

/-!
This module contains the reading of a 32 byte key as a path of 64 branches, and the nodes of a
SHAMap with the hashes they cache.
-/

open Hash256

namespace SHAMap

inductive Error where
  | errImmutable
  | errNilItem
  | errItemNotFound
  | errInvalidType
  | errInvalidState
  | errItemTooSmall
  | errMaxDepthExceeded
  | new (msg : String)
  | wrap (msg : String) (err : Error)
  | context (err : Error) (msg : String)
  deriving DecidableEq, Repr

def orWrap {α : Type} (msg : String) : Except Error α → Except Error α
  | .error err => .error (.wrap msg err)
  | .ok a => .ok a

def maxDepth : Nat := 64

abbrev branchFactor : Nat := 16

def highNibble (b : UInt8) : Fin branchFactor :=
  ⟨b.toNat >>> 4, by
    have := b.toNat_lt
    show b.toNat >>> 4 < 16
    omega⟩

def lowNibble (b : UInt8) : Fin branchFactor :=
  ⟨b.toNat &&& 15, Nat.lt_succ_of_le Nat.and_le_right⟩

structure NodeID where
  depth : Nat
  id : Hash256

def newRootNodeID : NodeID := { depth := 0, id := zero }

def NodeID.isRoot (n : NodeID) : Bool := n.depth == 0

def getBranchAtDepth (key : Hash256) (depth : Nat) : Fin branchFactor :=
  if depth ≥ maxDepth then
    0
  else
    let byteIndex := depth / 2
    if h : byteIndex < 32 then
      let b := key[byteIndex]
      if depth % 2 = 0 then highNibble b else lowNibble b
    else
      0

def selectBranch (nodeID : NodeID) (key : Hash256) : Fin branchFactor :=
  let depth := if nodeID.depth ≥ maxDepth then maxDepth - 1 else nodeID.depth
  let byteIndex := depth / 2
  if h : byteIndex < 32 then
    let b := key[byteIndex]
    if depth % 2 = 0 then highNibble b else lowNibble b
  else
    0

def findSplitDepth (key1 key2 : Hash256) (startDepth : Nat) : Nat :=
  ((List.range' startDepth (maxDepth - startDepth)).find? fun depth =>
    getBranchAtDepth key1 depth ≠ getBranchAtDepth key2 depth).getD (maxDepth - 1)

def NodeID.childNodeID (n : NodeID) (branch : Fin branchFactor) : Except Error NodeID :=
  if n.depth ≥ maxDepth then
    .error .errMaxDepthExceeded
  else
    let byteIndex := n.depth / 2
    if h : byteIndex < 32 then
      let old := n.id[byteIndex]
      let branch := UInt8.ofNat branch.val
      let new : UInt8 :=
        if n.depth % 2 = 0 then
          (old &&& (0x0F : UInt8)) ||| (branch <<< 4)
        else
          (old &&& (0xF0 : UInt8)) ||| branch
      .ok { depth := n.depth + 1, id := n.id.set byteIndex new h }
    else
      .error .errMaxDepthExceeded

def compareKeys (a b : Hash256) : Int :=
  if a < b then -1 else if a = b then 0 else 1

inductive LeafKind where
  | accountState
  | transaction
  | transactionWithMeta
  deriving DecidableEq, Repr

namespace LeafKind

def hashPrefix : LeafKind → List UInt8
  | accountState => [77, 76, 78, 0] -- MLN
  | transaction => [84, 88, 78, 0] -- TXN
  | transactionWithMeta => [83, 78, 68, 0] -- SND

def keyOnWire : LeafKind → Bool
  | accountState => true
  | transaction => false
  | transactionWithMeta => true

end LeafKind

def hashPrefixInnerNode : List UInt8 := [77, 73, 78, 0]

structure Item where
  key : Hash256
  data : List UInt8
  deriving DecidableEq

inductive Node where
  | nil
  | leaf (kind : LeafKind) (item : Item) (hash : Hash256)
  | inner (children : Fin branchFactor → Node) (hashes : Fin branchFactor → Hash256)
      (isBranch : BitVec branchFactor) (hash : Hash256)

structure InnerNode where
  children : Fin branchFactor → Node
  hashes : Fin branchFactor → Hash256
  isBranch : BitVec branchFactor
  hash : Hash256

def InnerNode.toNode (n : InnerNode) : Node := .inner n.children n.hashes n.isBranch n.hash

namespace Node

def hash : Node → Hash256
  | nil => zero
  | leaf _ _ hash => hash
  | inner _ _ _ hash => hash

def isNil : Node → Bool
  | nil => true
  | _ => false

end Node

namespace InnerNode

def newInnerNode : InnerNode :=
  {
    children := fun _ => .nil
    hashes := fun _ => zero
    isBranch := 0
    hash := zero
  }

def isEmptyBranch (n : InnerNode) (index : Fin branchFactor) : Bool :=
  !n.isBranch.getLsbD index

def onesCount16 (mask : BitVec 16) : Nat :=
  (List.finRange 16).countP fun (i : Fin 16) => mask.getLsbD i

def trailingZeros16 (mask : BitVec 16) : Fin 16 :=
  ((List.finRange 16).find? fun (i : Fin 16) => mask.getLsbD i).getD (Fin.last 15)

def branchCount (n : InnerNode) : Nat := onesCount16 n.isBranch

def childPreimageHash (n : InnerNode) (i : Fin branchFactor) : Hash256 :=
  match n.children i with
  | .nil => n.hashes i
  | child => child.hash

def preimage (n : InnerNode) : List UInt8 :=
  hashPrefixInnerNode ++ (List.finRange branchFactor).flatMap fun (i : Fin branchFactor) =>
    if n.isBranch.getLsbD i then
      (n.childPreimageHash i).toList
    else
      zero.toList

variable [Sha512Half]

def updateHashUnsafe (n : InnerNode) : InnerNode :=
  if n.isBranch = 0 then
    { n with hash := zero }
  else
    { n with hash := Sha512Half.sum n.preimage }

def setChild (n : InnerNode) (index : Fin branchFactor) (child : Node) : InnerNode :=
  let bit := 1#16 <<< index.val
  if child.isNil then
    updateHashUnsafe
      {
        children := Function.update n.children index child
        hashes := Function.update n.hashes index zero
        isBranch := n.isBranch &&& ~~~bit
        hash := n.hash
      }
  else
    updateHashUnsafe
      {
        children := Function.update n.children index child
        hashes := Function.update n.hashes index child.hash
        isBranch := n.isBranch ||| bit
        hash := n.hash
      }

end InnerNode

inductive NodeType where
  | inner
  | transactionNoMeta
  | transactionWithMeta
  | accountState
  deriving DecidableEq, Repr

variable [Sha512Half]

def leafHash (kind : LeafKind) (item : Item) : Hash256 :=
  if kind.keyOnWire then
    Sha512Half.sum (kind.hashPrefix ++ item.data ++ item.key.toList)
  else
    Sha512Half.sum (kind.hashPrefix ++ item.data)

def newLeafNode (kind : LeafKind) (item : Item) : Except Error Node :=
  if item.data.length < 12 then
    .error .errItemTooSmall
  else
    .ok (.leaf kind item (leafHash kind item))

def createLeafNode (nodeType : NodeType) (item : Item) : Except Error Node :=
  match nodeType with
  | .accountState => newLeafNode .accountState item
  | .transactionNoMeta => newLeafNode .transaction item
  | .transactionWithMeta => newLeafNode .transactionWithMeta item
  | .inner => .error (.new "invalid node type for leaf: inner")

end SHAMap
