import GoXrpl.ApplyState.Impl.Table
import GoXrpl.Keylet.Impl.Keylet

/-!
This module contains what `applystate.ApplyStateTable` does at the end of a transaction.
-/

namespace ApplyState

open State

-- The types that are threaded only under the amendment `fixPreviousTxnID`
def conditionalThreadingTypes : List EntryType :=
  [.directoryNode, .amendments, .feeSettings, .negativeUNL, .amm]

def isThreadedType (entryType : EntryType) (fixPreviousTxnIDEnabled : Bool) : Bool :=
  if entryType = .ledgerHashes then
    false
  else if conditionalThreadingTypes.contains entryType then
    fixPreviousTxnIDEnabled
  else
    true

structure Threading (Blob : Type) where
  prevTxnID : Hash256
  prevLgrSeq : UInt32
  -- `none` stands for `changed = false`
  newData : Option Blob

variable {Blob : Type} [Codec Blob]

def threadItem (data : Blob) (txHash : Hash256) (ledgerSeq : UInt32) : Threading Blob :=
  match Codec.decodeType data with
  | none => { prevTxnID := .zero, prevLgrSeq := 0, newData := none }
  | some typ =>
    if !typ.isSetter || !Codec.decodes typ data then
      { prevTxnID := .zero, prevLgrSeq := 0, newData := none }
    else
      match Codec.previousTxnID typ data with
      | .error _ => { prevTxnID := .zero, prevLgrSeq := 0, newData := none }
      | .ok previous =>
        let prevTxnID := previous.getD .zero
        let prevLgrSeq := Codec.previousTxnLgrSeq typ data
        -- already threaded to this transaction
        if prevTxnID = txHash then
          { prevTxnID, prevLgrSeq, newData := none }
        else
          { prevTxnID, prevLgrSeq, newData := Codec.setPreviousTxn typ data txHash ledgerSeq }

def getOwnerAccounts (data : Blob) (entryType : EntryType) : List AccountID :=
  if !entryType.hasModel || !Codec.decodes entryType data then
    []
  else
    match entryType with
    | .accountRoot => []
    | .rippleState => (Codec.lowLimitIssuer data).toList ++ (Codec.highLimitIssuer data).toList
    | entryType => (Codec.account entryType data).toList ++ (Codec.destination entryType data).toList

inductive NodeType where
  | createdNode
  | modifiedNode
  | deletedNode
  deriving DecidableEq, Repr

/--
The field maps of a node are computed from the two images alone, so the images stand for them; a
bare node of a threaded owner has none.
-/
structure AffectedNode (Blob : Type) where
  nodeType : NodeType
  ledgerEntryType : EntryType
  ledgerIndex : Hash256
  previousTxn : Option (Hash256 × UInt32) := none
  original : Option Blob := none
  current : Option Blob := none
  deriving DecidableEq

abbrev Metadata (Blob : Type) := List (AffectedNode Blob)

def decodeEntry (entryType : EntryType) (data : Option Blob) : Except Error Blob :=
  match data with
  | none => .error .undecodable
  | some data => if entryType.hasModel && Codec.decodes entryType data then .ok data else .error .undecodable

def metadataType (data : Option Blob) : Except Error EntryType :=
  match data.bind Codec.decodeType with
  | none => .error .undecodable
  | some entryType => .ok entryType

-- `PreviousTxn`, where an absent id is an empty string
def previousTxn (entryType : EntryType) (data : Blob) : Option (Hash256 × UInt32) :=
  match Codec.previousTxnID entryType data with
  | .ok (some id) => some (id, Codec.previousTxnLgrSeq entryType data)
  | _ => none

def buildCreatedNode (key : Hash256) (data : Option Blob) : Except Error (AffectedNode Blob) := do
  let entryType ← metadataType data
  let data ← decodeEntry entryType data
  return {
    nodeType := .createdNode
    ledgerEntryType := entryType
    ledgerIndex := key
    current := some data }

def modifiedNodePrevTxn (entry : TrackedEntry Blob) (entryType : EntryType) (original : Blob)
    : Option (Hash256 × UInt32) :=
  if entry.reinserted || entryType = .directoryNode then
    entry.threadPrev.filter (·.1 != .zero)
  else
    previousTxn entryType original

def buildModifiedNode (key : Hash256) (entry : TrackedEntry Blob) (fixPreviousTxnID : Bool)
    : Except Error (AffectedNode Blob) := do
  let entryType ← metadataType entry.current
  let original ← decodeEntry entryType entry.original
  let current ← decodeEntry entryType entry.current
  return {
    nodeType := .modifiedNode
    ledgerEntryType := entryType
    ledgerIndex := key
    previousTxn :=
      if isThreadedType entryType fixPreviousTxnID then
        modifiedNodePrevTxn entry entryType original
      else
        none
    original := some original
    current := some current }

def buildDeletedNode (key : Hash256) (entry : TrackedEntry Blob) : Except Error (AffectedNode Blob) := do
  let entryType ← metadataType entry.current
  let original ← decodeEntry entryType entry.original
  let current ← decodeEntry entryType entry.current
  return {
    nodeType := .deletedNode
    ledgerEntryType := entryType
    ledgerIndex := key
    previousTxn := previousTxn entryType original
    original := some original
    current := some current }

namespace ApplyStateTable

variable {σ : Type} [DecidableEq Blob] [Sha512Half] [LedgerView Blob σ]

def sortedItems (t : ApplyStateTable Blob σ) : List Hash256 :=
  sortLedgerKeys t.items.keys

def sortedOwners (t : ApplyStateTable Blob σ) : List Hash256 :=
  sortLedgerKeys t.threadOnlyOwners.keys

def threadOnly (ownerKey : Hash256) (data : Blob) (t : ApplyStateTable Blob σ)
    : ApplyStateTable Blob σ :=
  let threading := threadItem data t.txHash t.txSeq
  match threading.newData, Codec.decodeType data with
  | some newData, some ownerType =>
    { t with threadOnlyOwners := t.threadOnlyOwners.insert ownerKey {
        entryType := ownerType
        oldPreviousTxnID := threading.prevTxnID
        oldPreviousTxnLgrSeq := threading.prevLgrSeq
        updated := newData } }
  | _, _ => t

-- Writes the threaded bytes of a tracked entry back, if threading changed them.
def setThreaded (key : Hash256) (entry : TrackedEntry Blob) (newData : Option Blob)
    (t : ApplyStateTable Blob σ)
    : ApplyStateTable Blob σ :=
  match newData with
  | none => t
  | some newData => { t with items := t.items.insert key { entry with current := some newData } }

def threadOwner (sourceKey : Hash256) (t : ApplyStateTable Blob σ) (ownerID : AccountID)
    : ApplyStateTable Blob σ :=
  let ownerKey := Keylet.account ownerID
  match t.items.lookup ownerKey.key with
  | some entry =>
    match entry.current with
    | none => t
    | some current =>
      if entry.action = .erase then
        t
      else if entry.action ≠ .cache then
        -- A modify that changes nothing is skipped at its own key, before a later child is reached.
        if entry.original = entry.current ∧ ownerKey.key < sourceKey then
          t.threadOnly ownerKey.key current
        else
          t.setThreaded ownerKey.key entry (threadItem current t.txHash t.txSeq).newData
      else
        t.threadOnly ownerKey.key current
  | none =>
    let answer := LedgerView.read ownerKey t.base
    let t := { t with base := answer.2 }
    match answer.1 with
    | .ok (some ownerData) => t.threadOnly ownerKey.key ownerData
    | _ => t

def threadOwners (sourceKey : Hash256) (data : Option Blob) (entryType : EntryType)
    (t : ApplyStateTable Blob σ)
    : ApplyStateTable Blob σ :=
  match data with
  | none => t
  | some data => (getOwnerAccounts data entryType).foldl (threadOwner sourceKey) t

/--
The body of the loop of `applyThreading`.
-/
def threadEntry (t : ApplyStateTable Blob σ) (key : Hash256) : ApplyStateTable Blob σ :=
  match t.items.lookup key with
  | none => t
  | some entry =>
    match (entry.current.orElse fun _ => entry.original).bind Codec.decodeType with
    | none => t
    | some entryType =>
      match entry.action, entry.current with
      | .insert, some current =>
        let newData :=
          if isThreadedType entryType t.fixPreviousTxnID then
            (threadItem current t.txHash t.txSeq).newData
          else
            none
        (t.setThreaded key entry newData).threadOwners key (some (newData.getD current)) entryType
      | .modify, some current =>
        if entry.original = entry.current then
          t
        else if isThreadedType entryType t.fixPreviousTxnID then
          let threading := threadItem current t.txHash t.txSeq
          let threaded := { entry with
            threadPrev := some (threading.prevTxnID, threading.prevLgrSeq)
            current := some (threading.newData.getD current) }
          { t with items := t.items.insert key threaded }
        else
          t
      | .erase, current =>
        t.threadOwners key (entry.original.orElse fun _ => current) entryType
      | _, _ => t

def applyThreading (t : ApplyStateTable Blob σ) : ApplyStateTable Blob σ :=
  t.sortedItems.foldl threadEntry t

-- The node of one tracked entry; `none` for an entry that shows no change.
def buildNode (t : ApplyStateTable Blob σ) (key : Hash256) : Except Error (Option (AffectedNode Blob)) :=
  match t.items.lookup key with
  | none => .ok none
  | some entry =>
    match entry.action with
    | .cache => .ok none
    | .insert => some <$> buildCreatedNode key entry.current
    | .modify =>
      if entry.original = entry.current then
        .ok none
      else
        some <$> buildModifiedNode key entry t.fixPreviousTxnID
    | .erase => some <$> buildDeletedNode key entry

-- The bare node of an owner that has no node of its own
def buildOwnerNode (t : ApplyStateTable Blob σ) (key : Hash256) : Option (AffectedNode Blob) :=
  (t.threadOnlyOwners.lookup key).bind fun owner =>
    let alreadyEmitted :=
      match t.items.lookup key with
      | none => false
      | some entry =>
        let noopModify := entry.action = .modify && entry.original = entry.current
        entry.action != .cache && !noopModify
    if alreadyEmitted || owner.oldPreviousTxnID == .zero then
      none
    else
      some {
        nodeType := .modifiedNode
        ledgerEntryType := owner.entryType
        ledgerIndex := key
        previousTxn := some (owner.oldPreviousTxnID, owner.oldPreviousTxnLgrSeq) }

def buildMetadata (t : ApplyStateTable Blob σ) : Except Error (Metadata Blob) := do
  let nodes ← t.sortedItems.mapM t.buildNode
  return nodes.reduceOption ++ t.sortedOwners.filterMap t.buildOwnerNode

-- What one tracked entry writes to the view below
def itemWrite (t : ApplyStateTable Blob σ) (key : Hash256) : Option (Write Blob) :=
  (t.items.lookup key).bind fun entry =>
    match entry.action, entry.current with
    | .insert, some current => some (.insert (.ofKey key) current)
    | .modify, some current =>
      if entry.original = entry.current then none else some (.update (.ofKey key) current)
    | .erase, _ => some (.erase (.ofKey key))
    | _, _ => none

def ownerWrite (t : ApplyStateTable Blob σ) (key : Hash256) : Option (Write Blob) :=
  (t.threadOnlyOwners.lookup key).map fun owner => .update (.ofKey key) owner.updated

def commitWrites (t : ApplyStateTable Blob σ) : List (Write Blob) :=
  t.sortedItems.filterMap t.itemWrite ++ t.sortedOwners.filterMap t.ownerWrite
    ++ if t.drops > 0 then [.adjustDropsDestroyed t.drops] else []

/--
With a base to write to; `buildMetadata` is `applyOrdered` without one.
-/
def applyOrdered (t : ApplyStateTable Blob σ)
    : Except Error (Metadata Blob) × ApplyStateTable Blob σ :=
  match t.buildMetadata with
  | .error err => (.error err, t)
  | .ok metadata =>
    let answer := LedgerView.applyAtomically (Writer.ofList t.commitWrites) t.base
    match answer.1 with
    | some err => (.error err, { t with base := answer.2 })
    | none => (.ok metadata, { t with base := answer.2 })

-- The staged clone is dropped on an error; the state of the view below is shared with it.
def adoptIf (t : ApplyStateTable Blob σ)
    (staged : Except Error (Metadata Blob) × ApplyStateTable Blob σ)
    : Except Error (Metadata Blob) × ApplyStateTable Blob σ :=
  match staged.1 with
  | .error err => (.error err, { t with base := staged.2.base })
  | .ok metadata => (.ok metadata, staged.2)

def apply (t : ApplyStateTable Blob σ) : Except Error (Metadata Blob) × ApplyStateTable Blob σ :=
  t.adoptIf t.applyThreading.applyOrdered

def preview (t : ApplyStateTable Blob σ) : Except Error (Metadata Blob) × ApplyStateTable Blob σ :=
  let staged := t.applyThreading
  (staged.buildMetadata, { t with base := staged.base })

def applyUnthreaded (t : ApplyStateTable Blob σ)
    : Except Error (Metadata Blob) × ApplyStateTable Blob σ :=
  t.adoptIf t.applyOrdered

def size (t : ApplyStateTable Blob σ) : Nat :=
  t.items.entries.countP fun item => item.2.action != .cache

end ApplyStateTable

end ApplyState
