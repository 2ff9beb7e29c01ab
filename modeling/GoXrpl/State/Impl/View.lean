import Mathlib.Data.List.Sort
import GoXrpl.State.Impl.Entry
import GoXrpl.Program.Basic

/-!
This module contains the interface `tx.LedgerView` with `ledger.AtomicWriter`, the sorted keys that
an overlay introduced itself, and the programs that run against a view.
-/

namespace State

abbrev OrderedLedgerKeys := List Hash256

namespace OrderedLedgerKeys

def search (keys : OrderedLedgerKeys) (key : Hash256) : Nat × Bool :=
  let i := keys.findIdx (fun k => !decide (k < key))
  (i, keys[i]? == some key)

def add (keys : OrderedLedgerKeys) (key : Hash256) : OrderedLedgerKeys :=
  if (search keys key).2 then keys else keys.insertIdx (search keys key).1 key

def remove (keys : OrderedLedgerKeys) (key : Hash256) : OrderedLedgerKeys :=
  if (search keys key).2 then keys.eraseIdx (search keys key).1 else keys

def successor (keys : OrderedLedgerKeys) (key : Hash256) : Option Hash256 :=
  if (search keys key).2 then keys[(search keys key).1 + 1]? else keys[(search keys key).1]?

end OrderedLedgerKeys

def sortLedgerKeys (keys : List Hash256) : List Hash256 :=
  keys.insertionSort fun a b => !decide (b < a)

inductive Error where
  | storage (msg : String)
  | ledgerImmutable
  | entryExists
  | entryNotFound
  | entryAlreadyExists
  | entryNotFoundDeleted
  | entryAlreadyDeleted
  | undecodable
  | other (msg : String)
  deriving DecidableEq, Repr

inductive Query where
  | read (k : Keylet)
  | has (k : Keylet)
  | succ (key : Hash256)
  | forEach
  | txExists (txID : Hash256)

def Query.Reply (Blob : Type) : Query → Type
  | read _ => Except Error (Option Blob)
  | has _ => Except Error Bool
  | succ _ => Except Error (Option (Hash256 × Blob))
  | forEach => Except Error (List (Hash256 × Blob))
  | txExists _ => Except Error Bool

inductive Write (Blob : Type) where
  | insert (k : Keylet) (data : Blob)
  | update (k : Keylet) (data : Blob)
  | erase (k : Keylet)
  | adjustDropsDestroyed (drops : Int64)
  deriving DecidableEq

inductive Writer (Blob : Type) where
  | done (err : Option Error)
  | write (w : Write Blob) (next : Option Error → Writer Blob)

class LedgerView (Blob : outParam Type) (σ : Type) where
  query : (q : Query) → σ → q.Reply Blob × σ
  write : Write Blob → σ → Option Error × σ
  applyAtomically : Writer Blob → σ → Option Error × σ

namespace LedgerView

variable {Blob σ : Type} [LedgerView Blob σ]

abbrev read (k : Keylet) (s : σ) : Except Error (Option Blob) × σ :=
  query (.read k) s

abbrev has (k : Keylet) (s : σ) : Except Error Bool × σ :=
  query (.has k) s

abbrev succ (key : Hash256) (s : σ) : Except Error (Option (Hash256 × Blob)) × σ :=
  query (.succ key) s

abbrev forEach (s : σ) : Except Error (List (Hash256 × Blob)) × σ :=
  query .forEach s

abbrev txExists (txID : Hash256) (s : σ) : Except Error Bool × σ :=
  query (.txExists txID) s

end LedgerView

namespace Writer

variable {Blob : Type}

-- Stops at the first error, as every body in the repository does.
def ofList : List (Write Blob) → Writer Blob
  | [] => .done none
  | w :: ws =>
    .write w fun err =>
      match err with
      | none => ofList ws
      | some err => .done (some err)

def run {σ : Type} (write : Write Blob → σ → Option Error × σ) : Writer Blob → σ → Option Error × σ
  | .done err, s => (err, s)
  | .write w next, s => run write (next (write w s).1) (write w s).2

-- Every write that the body may make satisfies `P`.
def All (P : Write Blob → Prop) : Writer Blob → Prop
  | .done _ => True
  | .write w next => P w ∧ ∀ err, (next err).All P

end Writer

open Program

variable {Blob : Type}

abbrev querySig (Blob : Type) : Signature where
  Op := Query
  Answer := Query.Reply Blob

inductive Access (Blob : Type) where
  | query (q : Query)
  | below (q : Query)
  | write (w : Write Blob)
  | atomically (body : Writer Blob)

def Access.Answer : Access Blob → Type
  | query q => q.Reply Blob
  | below q => q.Reply Blob
  | write _ => Option Error
  | atomically _ => Option Error

def Write.KeepsDrops : Write Blob → Prop
  | .adjustDropsDestroyed _ => False
  | _ => True

def Access.KeepsDrops : Access Blob → Prop
  | .write w => w.KeepsDrops
  | .atomically body => body.All Write.KeepsDrops
  | _ => True

abbrev accessSig (Blob : Type) : Signature where
  Op := Access Blob
  Answer := Access.Answer

abbrev ViewProg (Blob ε α : Type) := Prog (querySig Blob) ε α

abbrev TableProg (Blob ε α : Type) := Prog (accessSig Blob) ε α

namespace Access

def read (k : Keylet) : TableProg Blob Error (Option Blob) :=
  .call (.query (.read k)) fun (answer : Except Error (Option Blob)) => Prog.ofExcept answer

def readBelow (k : Keylet) : TableProg Blob Error (Option Blob) :=
  .call (.below (.read k)) fun (answer : Except Error (Option Blob)) => Prog.ofExcept answer

def update (k : Keylet) (data : Blob) : TableProg Blob Error Unit :=
  .call (.write (.update k data)) fun (answer : Option Error) => Prog.ofError answer

def erase (k : Keylet) : TableProg Blob Error Unit :=
  .call (.write (.erase k)) fun (answer : Option Error) => Prog.ofError answer

end Access

variable {σ : Type}

def LedgerView.step [LedgerView Blob σ] : (op : Access Blob) → σ → op.Answer × σ
  | .query q, s => LedgerView.query q s
  | .below q, s => LedgerView.query q s
  | .write w, s => LedgerView.write w s
  | .atomically body, s => LedgerView.applyAtomically body s

def Access.insert (k : Keylet) (data : Blob) : TableProg Blob Error Unit :=
  .call (.write (.insert k data)) fun (answer : Option Error) => Prog.ofError answer

end State
