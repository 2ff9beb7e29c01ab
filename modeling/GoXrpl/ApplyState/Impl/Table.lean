import GoXrpl.State.Impl.View
import Mathlib.Data.List.AList

/-!
This module contains the accesses of `applystate.ApplyStateTable`, the overlay of one transaction
over the view below it.
-/

namespace ApplyState

open State

inductive Action where
  | cache
  | insert
  | modify
  | erase
  deriving DecidableEq, Repr

structure TrackedEntry (Blob : Type) where
  action : Action
  original : Option Blob
  current : Option Blob
  reinserted : Bool := false
  -- `hasThreadPrev`, `threadPrevTxnID` and `threadPrevTxnLgrSq`
  threadPrev : Option (Hash256 × UInt32) := none
  deriving DecidableEq

structure ThreadedOwner (Blob : Type) where
  entryType : EntryType
  oldPreviousTxnID : Hash256
  oldPreviousTxnLgrSeq : UInt32
  updated : Blob
  deriving DecidableEq

abbrev Items (Blob : Type) := AList (fun _ : Hash256 => TrackedEntry Blob)

/--
Of the rules, the table asks for the amendment `fixPreviousTxnID` only.
-/
structure ApplyStateTable (Blob σ : Type) where
  base : σ
  items : Items Blob
  insertedKeys : OrderedLedgerKeys
  threadOnlyOwners : AList (fun _ : Hash256 => ThreadedOwner Blob)
  drops : Int64
  txHash : Hash256
  txSeq : UInt32
  fixPreviousTxnID : Bool

variable {Blob σ : Type} [Codec Blob] [LedgerView Blob σ]

-- `MatchesKeyletType` on bytes that may be `nil`
def matchesData (k : Keylet) : Option Blob → Bool
  | none => k.type == .any
  | some data => matchesKeyletType k data

namespace ApplyStateTable

def newApplyStateTable (base : σ) (txHash : Hash256) (txSeq : UInt32) (fixPreviousTxnID : Bool)
    : ApplyStateTable Blob σ where
  base
  items := ∅
  insertedKeys := []
  threadOnlyOwners := ∅
  drops := 0
  txHash
  txSeq
  fixPreviousTxnID

def read (k : Keylet) (t : ApplyStateTable Blob σ)
    : Except Error (Option Blob) × ApplyStateTable Blob σ :=
  match t.items.lookup k.key with
  | some entry =>
    if entry.action = .erase then
      (.ok none, t)
    else if !matchesData k entry.current then
      (.ok none, t)
    else
      (.ok entry.current, t)
  | none =>
    let answer := LedgerView.read k t.base
    let t := { t with base := answer.2 }
    match answer.1 with
    | .error err => (.error err, t)
    | .ok none => (.ok none, t)
    | .ok (some data) =>
      if !matchesKeyletType k data then
        (.ok none, t)
      else
        -- Only entries that exist in the base are tracked.
        let entry := { action := .cache, original := some data, current := some data }
        (.ok (some data), { t with items := t.items.insert k.key entry })

def has (k : Keylet) (t : ApplyStateTable Blob σ) : Except Error Bool × ApplyStateTable Blob σ :=
  match t.items.lookup k.key with
  | some entry => (.ok (entry.action != .erase && matchesData k entry.current), t)
  | none =>
    let answer := LedgerView.has k t.base
    (answer.1, { t with base := answer.2 })

def insert (k : Keylet) (data : Blob) (t : ApplyStateTable Blob σ)
    : Option Error × ApplyStateTable Blob σ :=
  match t.items.lookup k.key with
  | some entry =>
    if entry.action ≠ .erase then
      (some .entryAlreadyExists, t)
    else
      -- Inserting a deleted entry again becomes a modify.
      let items := t.items.insert k.key
        { entry with action := .modify, current := some data, reinserted := true }
      let insertedKeys :=
        if entry.original.isNone then t.insertedKeys.add k.key else t.insertedKeys
      (none, { t with items, insertedKeys })
  | none =>
    let answer := LedgerView.has k t.base
    let t := { t with base := answer.2 }
    match answer.1 with
    | .error err => (some err, t)
    | .ok true => (some .entryAlreadyExists, t)
    | .ok false =>
      let entry := { action := .insert, original := none, current := some data }
      (none, { t with
        insertedKeys := t.insertedKeys.add k.key
        items := t.items.insert k.key entry })

def update (k : Keylet) (data : Blob) (t : ApplyStateTable Blob σ)
    : Option Error × ApplyStateTable Blob σ :=
  match t.items.lookup k.key with
  | some entry =>
    if entry.action = .erase then
      (some .entryNotFoundDeleted, t)
    else
      let action := if entry.action = .cache then .modify else entry.action
      (none, { t with items := t.items.insert k.key { entry with action, current := some data } })
  | none =>
    let answer := LedgerView.read k t.base
    let t := { t with base := answer.2 }
    match answer.1 with
    | .error err => (some err, t)
    | .ok none =>
      let entry := { action := .insert, original := none, current := some data }
      (none, { t with
        insertedKeys := t.insertedKeys.add k.key
        items := t.items.insert k.key entry })
    | .ok (some original) =>
      let entry := { action := .modify, original := some original, current := some data }
      (none, { t with items := t.items.insert k.key entry })

def erase (k : Keylet) (t : ApplyStateTable Blob σ) : Option Error × ApplyStateTable Blob σ :=
  let t := { t with insertedKeys := t.insertedKeys.remove k.key }
  match t.items.lookup k.key with
  | some entry =>
    if entry.action = .erase then
      (some .entryAlreadyDeleted, t)
    else if entry.action = .insert then
      (none, { t with items := t.items.erase k.key })
    else
      (none, { t with items := t.items.insert k.key { entry with action := .erase } })
  | none =>
    let answer := LedgerView.read k t.base
    let t := { t with base := answer.2 }
    match answer.1 with
    | .error err => (some err, t)
    | .ok original =>
      let entry := { action := .erase, original := original, current := original }
      (none, { t with items := t.items.insert k.key entry })

def isErased (k : Keylet) (t : ApplyStateTable Blob σ) : Bool :=
  match t.items.lookup k.key with
  | some entry => entry.action = .erase
  | none => false

def adjustDropsDestroyed (drops : Int64) (t : ApplyStateTable Blob σ)
    : Option Error × ApplyStateTable Blob σ :=
  (none, { t with drops := t.drops + drops })

def forEach (t : ApplyStateTable Blob σ)
    : Except Error (List (Hash256 × Blob)) × ApplyStateTable Blob σ :=
  let tracked := t.items.entries.filterMap fun item =>
    if item.2.action = .erase then none else item.2.current.map (item.1, ·)
  let answer := LedgerView.forEach t.base
  let t := { t with base := answer.2 }
  match answer.1 with
  | .error err => (.error err, t)
  | .ok entries => (.ok (tracked ++ entries.filter fun e => (t.items.lookup e.1).isNone), t)

def baseSucc (items : Items Blob)
    : Nat → Hash256 → σ → Except Error (Option (Hash256 × Blob)) × σ
  | 0, _, base => (.ok none, base)
  | fuel + 1, searchBase, base =>
    let answer := LedgerView.succ searchBase base
    match answer.1 with
    | .error err => (.error err, answer.2)
    | .ok none => (.ok none, answer.2)
    | .ok (some (baseKey, baseData)) =>
      match items.lookup baseKey with
      | none => (.ok (some (baseKey, baseData)), answer.2)
      | some entry =>
        if entry.action = .erase then
          baseSucc items fuel baseKey answer.2
        else
          -- An entry modified here shows its bytes from here.
          (.ok (some (baseKey, entry.current.getD baseData)), answer.2)

def succ (key : Hash256) (t : ApplyStateTable Blob σ)
    : Except Error (Option (Hash256 × Blob)) × ApplyStateTable Blob σ :=
  let best := (t.insertedKeys.successor key).bind fun k =>
    (t.items.lookup k).bind fun entry => entry.current.map (k, ·)
  -- Every turn but the last passes a key erased here.
  let answer := baseSucc t.items (t.items.keys.length + 1) key t.base
  let t := { t with base := answer.2 }
  match answer.1 with
  | .error err => (.error err, t)
  | .ok none => (.ok best, t)
  | .ok (some (baseKey, baseData)) =>
    match best with
    | none => (.ok (some (baseKey, baseData)), t)
    | some (bestKey, bestData) =>
      if baseKey < bestKey then
        (.ok (some (baseKey, baseData)), t)
      else
        (.ok (some (bestKey, bestData)), t)

def txExists (txID : Hash256) (t : ApplyStateTable Blob σ)
    : Except Error Bool × ApplyStateTable Blob σ :=
  let answer := LedgerView.txExists txID t.base
  (answer.1, { t with base := answer.2 })

def write : Write Blob → ApplyStateTable Blob σ → Option Error × ApplyStateTable Blob σ
  | .insert k data, t => t.insert k data
  | .update k data, t => t.update k data
  | .erase k, t => t.erase k
  | .adjustDropsDestroyed drops, t => t.adjustDropsDestroyed drops

def applyAtomically (apply : Writer Blob) (t : ApplyStateTable Blob σ)
    : Option Error × ApplyStateTable Blob σ :=
  let staged := apply.run write t
  match staged.1 with
  | some err => (some err, { t with base := staged.2.base })
  | none => (none, staged.2)

instance : LedgerView Blob (ApplyStateTable Blob σ) where
  query q t :=
    match q with
    | .read k => t.read k
    | .has k => t.has k
    | .succ key => t.succ key
    | .forEach => t.forEach
    | .txExists txID => t.txExists txID
  write := write
  applyAtomically := applyAtomically

def step : (op : Access Blob) → ApplyStateTable Blob σ → op.Answer × ApplyStateTable Blob σ
  | .query q, t => LedgerView.query q t
  | .below q, t =>
    let answer := LedgerView.query q t.base
    (answer.1, { t with base := answer.2 })
  | .write w, t => t.write w
  | .atomically body, t => t.applyAtomically body

end ApplyStateTable

end ApplyState
