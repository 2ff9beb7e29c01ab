import Mathlib.Data.List.AList

/-!
This module contains the byte admission pool of a node and its accounts. The functions run under the
mutex of the pool, so a call is one step.
-/

namespace Membudget

structure Checked (α : Type) where
  value : α
  underflow : Bool

instance : Monad Checked where
  pure a := ⟨a, false⟩
  bind x f := ⟨(f x.value).value, x.underflow || (f x.value).underflow⟩

def sub (a b : UInt64) : Checked UInt64 where
  value := a - b
  underflow := a < b

def maxAccounts : Nat := 256

structure Account where
  minimum : UInt64
  maximum : UInt64
  used : UInt64
  peak : UInt64
  denied : UInt64
  released : UInt64
  invalid : UInt64
  deriving DecidableEq

structure Pool where
  limit : UInt64
  used : UInt64
  peak : UInt64
  minimum : UInt64
  unusedMinimum : UInt64
  denied : UInt64
  released : UInt64
  invalid : UInt64
  accounts : AList fun _ : String => Account

def Pool.new (limit : UInt64) : Pool where
  limit := limit
  used := 0
  peak := 0
  minimum := 0
  unusedMinimum := 0
  denied := 0
  released := 0
  invalid := 0
  accounts := ∅

inductive Error where
  | invalidAccountName
  | accountLimit
  | duplicateAccount
  | invalidAccountBounds
  | minimumExceedsLimit
  deriving DecidableEq

-- `unicode.IsSpace`
def isSpace (c : Char) : Bool :=
  let n := c.toNat
  (9 ≤ n && n ≤ 13) || n == 32 || n == 0x85 || n == 0xa0 || n == 0x1680 || (0x2000 ≤ n && n ≤ 0x200a)
    || n == 0x2028 || n == 0x2029 || n == 0x202f || n == 0x205f || n == 0x3000

def saturatingAdd (current amount : UInt64) : UInt64 :=
  if 0xffffffffffffffff - current < amount then 0xffffffffffffffff else current + amount

def Account.unused (a : Account) : Checked UInt64 :=
  if a.minimum > a.used then sub a.minimum a.used else pure 0

def moveUnused (unusedMinimum oldUnused newUnused : UInt64) : Checked UInt64 :=
  if newUnused ≥ oldUnused then do
    let more ← sub newUnused oldUnused
    return unusedMinimum + more
  else do
    let less ← sub oldUnused newUnused
    sub unusedMinimum less

namespace Pool

def setAccount (p : Pool) (name : String) (a : Account) : Pool :=
  { p with accounts := p.accounts.insert name a }

def newAccount (p : Pool) (name : String) (minimum maximum : UInt64) : Checked (Except Error Pool) :=
  if name.toList.all isSpace then
    return .error .invalidAccountName
  else if p.accounts.keys.length ≥ maxAccounts then
    return .error .accountLimit
  else if p.accounts.keys.contains name then
    return .error .duplicateAccount
  else
    let maximum := if maximum = 0 then p.limit else maximum
    if minimum > maximum ∨ maximum > p.limit then
      return .error .invalidAccountBounds
    else do
      let unprotected ← sub p.limit p.minimum
      if minimum > unprotected then
        return .error .minimumExceedsLimit
      else
        let free ← sub p.limit p.used
        let available ← sub free p.unusedMinimum
        if minimum > available then
          return .error .minimumExceedsLimit
        else
          return .ok { p with
            minimum := p.minimum + minimum
            unusedMinimum := p.unusedMinimum + minimum
            accounts := p.accounts.insert name {
              minimum := minimum
              maximum := maximum
              used := 0
              peak := 0
              denied := 0
              released := 0
              invalid := 0 } }

def canReserveLocked (p : Pool) (a : Account) (bytes : UInt64) : Checked Bool :=
  if a.used > a.maximum then
    return false
  else do
    let room ← sub a.maximum a.used
    if bytes > room then
      return false
    else
      let free ← sub p.limit p.used
      if bytes > free then
        return false
      else
        let ownUnused ← a.unused
        if p.unusedMinimum < ownUnused then
          return false
        else
          let otherUnused ← sub p.unusedMinimum ownUnused
          let available ← sub p.limit p.used
          if available ≥ otherUnused then
            let shared ← sub available otherUnused
            return bytes ≤ shared
          else
            return false

def adjustUsedLocked (p : Pool) (a : Account) (delta : UInt64) : Checked (Pool × Account) :=
  if delta = 0 then
    return (p, a)
  else do
    let oldUnused ← a.unused
    let a := { a with used := a.used + delta }
    let p := { p with used := p.used + delta }
    let a := { a with peak := if a.used > a.peak then a.used else a.peak }
    let p := { p with peak := if p.used > p.peak then p.used else p.peak }
    let newUnused ← a.unused
    let unusedMinimum ← moveUnused p.unusedMinimum oldUnused newUnused
    return ({ p with unusedMinimum }, a)

def releaseUsedLocked (p : Pool) (a : Account) (bytes : UInt64) : Checked (Pool × Account) := do
  let oldUnused ← a.unused
  let accountUsed ← sub a.used bytes
  let poolUsed ← sub p.used bytes
  let a := { a with used := accountUsed }
  let newUnused ← a.unused
  let unusedMinimum ← moveUnused p.unusedMinimum oldUnused newUnused
  return ({ p with used := poolUsed, unusedMinimum }, a)

def tryReserve (p : Pool) (name : String) (bytes : UInt64) : Checked (Bool × Pool) :=
  match p.accounts.lookup name with
  | none => return (false, p)
  | some a => do
    let can ← p.canReserveLocked a bytes
    if !can then
      return (false, { p with denied := p.denied + 1 }.setAccount name { a with denied := a.denied + 1 })
    else if bytes = 0 then
      return (true, p)
    else
      let (p, a) ← p.adjustUsedLocked a bytes
      return (true, p.setAccount name a)

def release (p : Pool) (name : String) (bytes : UInt64) : Checked Pool :=
  match p.accounts.lookup name with
  | none => return p
  | some a =>
    if bytes > a.used then
      return { p with invalid := p.invalid + 1 }.setAccount name { a with invalid := a.invalid + 1 }
    else if bytes = 0 then
      return p
    else do
      let (p, a) ← p.releaseUsedLocked a bytes
      return { p with released := saturatingAdd p.released bytes }.setAccount name
        { a with released := saturatingAdd a.released bytes }

def transferTo (p : Pool) (name dst : String) (bytes : UInt64) : Checked (Bool × Pool) :=
  match p.accounts.lookup name, p.accounts.lookup dst with
  | some a, some d =>
    if bytes > a.used then
      return (false, p)
    else if bytes = 0 ∨ name = dst then
      return (true, p)
    else do
      let (q, a) ← p.releaseUsedLocked a bytes
      let can ← q.canReserveLocked d bytes
      if !can then
        let (q, a) ← q.adjustUsedLocked a bytes
        return (false, q.setAccount name a)
      else
        let (q, d) ← q.adjustUsedLocked d bytes
        return (true, (q.setAccount name a).setAccount dst d)
  | _, _ => return (false, p)

end Pool

end Membudget
