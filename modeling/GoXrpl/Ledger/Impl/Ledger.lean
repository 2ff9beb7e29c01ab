import GoXrpl.State.Impl.View
import Mathlib.Data.List.AList

/-!
This module contains the state of an open `ledger.Ledger` and its accesses.
-/

open State

structure Ledger (Blob : Type) where
  stateMap : AList (fun _ : Hash256 => Blob)
  txMap : List Hash256
  dropsDestroyed : Int64
  -- `l.state == StateOpen && l.writable`
  writable : Bool
  faults : Nat → Option Error
  accesses : Nat

namespace Ledger

variable {Blob : Type}

def access (l : Ledger Blob) : Option Error × Ledger Blob :=
  (l.faults l.accesses, { l with accesses := l.accesses + 1 })

def upperBound (l : Ledger Blob) (key : Hash256) : Option (Hash256 × Blob) :=
  ((sortLedgerKeys l.stateMap.keys).find? fun k => decide (key < k)).bind fun k =>
    (l.stateMap.lookup k).map (k, ·)

def mutate (k : Keylet) (present : Bool) (otherwise : Error)
    (change : AList (fun _ : Hash256 => Blob) → AList (fun _ : Hash256 => Blob)) (l : Ledger Blob)
    : Option Error × Ledger Blob :=
  if !l.writable then
    (some .ledgerImmutable, l)
  else
    let found := l.access
    match found.1 with
    | some err => (some err, found.2)
    | none =>
      if (l.stateMap.lookup k.key).isSome ≠ present then
        (some otherwise, found.2)
      else
        let changed := found.2.access
        match changed.1 with
        | some err => (some err, changed.2)
        | none => (none, { changed.2 with stateMap := change l.stateMap })

def insert (k : Keylet) (data : Blob) : Ledger Blob → Option Error × Ledger Blob :=
  mutate k false .entryExists (·.insert k.key data)

def update (k : Keylet) (data : Blob) : Ledger Blob → Option Error × Ledger Blob :=
  mutate k true .entryNotFound (·.insert k.key data)

def erase (k : Keylet) : Ledger Blob → Option Error × Ledger Blob :=
  mutate k true .entryNotFound (·.erase k.key)

def adjustDropsDestroyed (drops : Int64) (l : Ledger Blob) : Option Error × Ledger Blob :=
  if !l.writable then
    (some .ledgerImmutable, l)
  else
    (none, { l with dropsDestroyed := l.dropsDestroyed + drops })

def write : Write Blob → Ledger Blob → Option Error × Ledger Blob
  | .insert k data, l => l.insert k data
  | .update k data, l => l.update k data
  | .erase k, l => l.erase k
  | .adjustDropsDestroyed drops, l => l.adjustDropsDestroyed drops

def applyAtomically (apply : Writer Blob) (l : Ledger Blob) : Option Error × Ledger Blob :=
  if !l.writable then
    (some .ledgerImmutable, l)
  else
    let fork := l.access
    match fork.1 with
    | some err => (some err, fork.2)
    | none =>
      let staged := apply.run write fork.2
      match staged.1 with
      | some err => (some err, { fork.2 with accesses := staged.2.accesses })
      | none => (none, staged.2)

-- The answer of an access that does not fail
def answer {α : Type} (l : Ledger Blob) (a : α) : Except Error α :=
  match l.access.1 with
  | some err => .error err
  | none => .ok a

variable [Codec Blob]

instance : LedgerView Blob (Ledger Blob) where
  query q l :=
    match q with
    | .read k => (l.answer ((l.stateMap.lookup k.key).filter (matchesKeyletType k)), l.access.2)
    | .has k => (l.answer (l.stateMap.lookup k.key).isSome, l.access.2)
    | .succ key => (l.answer (l.upperBound key), l.access.2)
    | .forEach => (l.answer (l.stateMap.entries.map fun e => (e.1, e.2)), l.access.2)
    | .txExists txID => (l.answer (l.txMap.contains txID), l.access.2)
  write := write
  applyAtomically := applyAtomically

end Ledger
