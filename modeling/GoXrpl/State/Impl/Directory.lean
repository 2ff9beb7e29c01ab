import GoXrpl.State.Impl.View
import GoXrpl.Keylet.Impl.Keylet

/-!
This module contains the removal of an item from a directory of the ledger, the insertion of one,
and the walk over the items of a directory.
-/

open State.Access State.Keylet Program.Prog

namespace State

open Program

variable {Blob : Type} [Records Blob] [Sha512Half]

def rootPage : UInt64 := 0

-- `ParseDirectoryNode`, where bytes that are `nil` do not decode
def parseDirectoryNode (data : Option Blob) : TableProg Blob Error DirectoryNode :=
  ofOption .undecodable (data.bind Records.parseDirectoryNode)

-- `SerializeDirectoryNode` and `Update`
def updateNode (k : Keylet) (node : DirectoryNode) : TableProg Blob Error Unit := do
  let data ← (ofOption .undecodable (Records.serializeDirectoryNode node node.isBookDir)
    : TableProg Blob Error Blob)
  update k data

def removeFromRoot (directory : Keylet) (node : DirectoryNode) (keepRoot : Bool)
    : TableProg Blob Error Bool := do
  let pageKeylet := dirPage directory.key rootPage
  let prevPage := node.indexPrevious
  let nextPage := node.indexNext
  if nextPage = rootPage ∧ prevPage ≠ rootPage then
    fail (.other "directory chain: fwd link broken")
  else if prevPage = rootPage ∧ nextPage ≠ rootPage then
    fail (.other "directory chain: rev link broken")
  else if nextPage = prevPage ∧ nextPage ≠ rootPage then
    let lastPageKeylet := dirPage directory.key nextPage
    let lastPageData ← (read lastPageKeylet).mapError
      fun _ => .other "directory chain: fwd link broken"
    let lastPage ← parseDirectoryNode lastPageData
    -- Handles legacy empty trailing pages.
    if lastPage.indexes.isEmpty then
      let node := (node.setIndexNext rootPage).setIndexPrevious rootPage
      updateNode pageKeylet node
      erase lastPageKeylet
      if keepRoot then
        return true
      else
        erase pageKeylet
        return true
    else
      updateNode pageKeylet node
      return true
  else if keepRoot ∨ nextPage ≠ rootPage ∨ prevPage ≠ rootPage then
    updateNode pageKeylet node
    return true
  else
    erase pageKeylet
    return true

def removePage (directory : Keylet) (page : UInt64) (node : DirectoryNode) (keepRoot : Bool)
    : TableProg Blob Error Bool := do
  let pageKeylet := dirPage directory.key page
  let prevPage := node.indexPrevious
  let nextPage := node.indexNext
  if nextPage = page then
    fail (.other "directory chain: fwd link broken")
  else if prevPage = page then
    fail (.other "directory chain: rev link broken")
  else
    let prevPageKeylet := dirPage directory.key prevPage
    let prevPageData ← (read prevPageKeylet).mapError
      fun _ => .other "directory chain: fwd link broken"
    let prev ← parseDirectoryNode prevPageData
    let nextPageKeylet := dirPage directory.key nextPage
    -- When the two neighbours are the same page, both links are set on one node.
    if nextPageKeylet.key = prevPageKeylet.key then
      let prev := (prev.setIndexNext nextPage).setIndexPrevious prevPage
      updateNode prevPageKeylet prev
      erase pageKeylet
      finish prevPageKeylet nextPageKeylet prev prev prevPage nextPage
    else
      let nextPageData ← (read nextPageKeylet).mapError
        fun _ => .other "directory chain: rev link broken"
      let next ← parseDirectoryNode nextPageData
      let prev := prev.setIndexNext nextPage
      let next := next.setIndexPrevious prevPage
      updateNode prevPageKeylet prev
      updateNode nextPageKeylet next
      erase pageKeylet
      finish prevPageKeylet nextPageKeylet prev next prevPage nextPage
where
  finish (prevPageKeylet nextPageKeylet : Keylet) (prev next : DirectoryNode)
      (prevPage nextPage : UInt64)
      : TableProg Blob Error Bool := do
    if nextPage ≠ rootPage ∧ next.indexNext = rootPage ∧ next.indexes.isEmpty then
      erase nextPageKeylet
      let prev := prev.setIndexNext rootPage
      updateNode prevPageKeylet prev
      let rootKeylet := dirPage directory.key rootPage
      let rootData ← read rootKeylet
      let root ← parseDirectoryNode rootData
      updateNode rootKeylet (root.setIndexPrevious prevPage)
      eraseRoot prevPageKeylet prev prevPage rootPage
    else
      eraseRoot prevPageKeylet prev prevPage nextPage
  eraseRoot (prevPageKeylet : Keylet) (prev : DirectoryNode) (prevPage nextPage : UInt64)
      : TableProg Blob Error Bool := do
    if !keepRoot ∧ nextPage = rootPage ∧ prevPage = rootPage ∧ prev.indexes.isEmpty then
      erase prevPageKeylet
      return true
    else
      return true

/--
Of the result of the source, the lists of changed pages are left out.
-/
def dirRemove (directory : Keylet) (page : UInt64) (itemKey : Hash256) (keepRoot : Bool)
    : TableProg Blob Error Bool := do
  let pageKeylet := dirPage directory.key page
  let pageData ← read pageKeylet
  match pageData with
  | none => return false
  | some pageData =>
    let node ← parseDirectoryNode (some pageData)
    if itemKey ∉ node.indexes then
      return false
    else
      let node := { node with indexes := node.indexes.filter (· ≠ itemKey) }
      if !node.indexes.isEmpty then
        updateNode pageKeylet node
        return true
      else if page = rootPage then
        removeFromRoot directory node keepRoot
      else
        removePage directory page node keepRoot

def dirNodeMaxPages : UInt64 := 262144

def dirNodeMaxEntries : Nat := 32

def Access.has (k : Keylet) : TableProg Blob Error Bool :=
  .call (.query (.has k)) fun (answer : Except Error Bool) => ofExcept answer

-- `SerializeDirectoryNode` with the hint of `DirInsert`, and `Update` or `Insert`
def updatePage (k : Keylet) (node : DirectoryNode) (isBookDir : Bool) : TableProg Blob Error Unit := do
  let data ← (ofOption .undecodable (Records.serializeDirectoryNode node isBookDir)
    : TableProg Blob Error Blob)
  update k data

def insertPage (k : Keylet) (node : DirectoryNode) (isBookDir : Bool) : TableProg Blob Error Unit := do
  let data ← (ofOption .undecodable (Records.serializeDirectoryNode node isBookDir)
    : TableProg Blob Error Blob)
  insert k data

def DirectoryNode.fresh (itemKey : Hash256) : DirectoryNode where
  indexes := [itemKey]
  indexNext := 0
  indexPrevious := 0
  indexNextSet := false
  indexPreviousSet := false
  takerPaysCurrency := Vector.replicate 20 0
  takerGetsCurrency := Vector.replicate 20 0

/--
The items of a page with one more, `none` for one that is there already.
-/
def insertKey (preserveOrder : Bool) (indexes : List Hash256) (itemKey : Hash256)
    : Option (List Hash256) :=
  if preserveOrder then
    if itemKey ∈ indexes then none else some (indexes ++ [itemKey])
  else
    let sorted := sortLedgerKeys indexes
    let (pos, found) := OrderedLedgerKeys.search sorted itemKey
    if found then none else some (sorted.insertIdx pos itemKey)

def linkPages (dirKey : Keylet) (page newPage : UInt64) (root node : DirectoryNode)
    (preserveOrder : Bool) : TableProg Blob Error Unit :=
  if page = rootPage then
    updatePage dirKey ((root.setIndexNext newPage).setIndexPrevious newPage) preserveOrder
  else do
    updatePage ⟨dirKey.type, (dirPage dirKey.key page).key⟩ (node.setIndexNext newPage)
      preserveOrder
    updatePage dirKey (root.setIndexPrevious newPage) preserveOrder

def addPage (dirKey : Keylet) (page : UInt64) (root node : DirectoryNode) (itemKey : Hash256)
    (preserveOrder fixDirectoryLimit : Bool) (setupFunc : DirectoryNode → DirectoryNode)
    : TableProg Blob Error UInt64 := do
  let newPage := page + 1
  if newPage = 0 ∨ (!fixDirectoryLimit ∧ newPage ≥ dirNodeMaxPages) then
    fail (.other "directory full")
  else
    let newPageNode := DirectoryNode.fresh itemKey
    -- Page 1 has no link to the root before it.
    let newPageNode :=
      setupFunc (if newPage ≠ 1 then newPageNode.setIndexPrevious (newPage - 1) else newPageNode)
    linkPages dirKey page newPage root node preserveOrder
    insertPage (dirPage dirKey.key newPage) newPageNode preserveOrder
    return newPage

def readLastPage (dirKey : Keylet) (root : DirectoryNode) : TableProg Blob Error DirectoryNode :=
  if root.indexPrevious = rootPage then
    return root
  else do
    let pageData ← read (dirPage dirKey.key root.indexPrevious)
    parseDirectoryNode pageData

/--
Of the result of the source, the states of the changed pages are left out.
-/
def dirInsert (dirKey : Keylet) (itemKey : Hash256) (preserveOrder fixDirectoryLimit : Bool)
    (setupFunc : DirectoryNode → DirectoryNode) : TableProg Blob Error UInt64 := do
  let found ← has dirKey
  if !found then
    insertPage dirKey (setupFunc (.fresh itemKey)) preserveOrder
    return rootPage
  else
    let rootData ← read dirKey
    let root ← parseDirectoryNode rootData
    let page := root.indexPrevious
    let node ← readLastPage dirKey root
    if node.indexes.length < dirNodeMaxEntries then
      let indexes ← (ofOption (.other "dirInsert: double insertion")
        (insertKey preserveOrder node.indexes itemKey) : TableProg Blob Error (List Hash256))
      updatePage ⟨dirKey.type, (dirPage dirKey.key page).key⟩ { node with indexes }
        preserveOrder
      return page
    else
      addPage dirKey page root node itemKey preserveOrder fixDirectoryLimit setupFunc

def forEachFrom (dirKey : Keylet) : Nat → UInt64 → TableProg Blob Error (List Hash256)
  | 0, _ => .panic
  | fuel + 1, page =>
    if page = rootPage then
      return []
    else do
      let pageData ← read (dirPage dirKey.key page)
      if pageData.isNone then
        return []
      else
        let node ← parseDirectoryNode pageData
        let rest ← forEachFrom dirKey fuel node.indexNext
        return node.indexes ++ rest

def dirForEach (dirKey : Keylet) (fuel : Nat) : TableProg Blob Error (List Hash256) := do
  let rootData ← read dirKey
  if rootData.isNone then
    return []
  else
    let root ← parseDirectoryNode rootData
    let rest ← forEachFrom dirKey fuel root.indexNext
    return root.indexes ++ rest

end State
