import Mathlib.Algebra.Group.Int.Defs
import GoXrpl.Engine.Impl.Config
import GoXrpl.Keylet.Impl.Keylet

/-!
This module contains how amounts of an MPT move between accounts: `Credit`, the transfer rate, and
`Send`.
-/

open State Program Access

namespace MPT

open Engine Engine.Ter

abbrev ID := Vector UInt8 24

def tecPATH_DRY : Result := 128
def tecNO_AUTH : Result := 134
def tecINSUFFICIENT_FUNDS : Result := 159
def tecOBJECT_NOT_FOUND : Result := 160

def rateOne : UInt32 := 1000000000

def maxMPTokenAmount : UInt64 := 0x7FFFFFFFFFFFFFFF

structure MPTokenIssuanceData where
  issuer : AccountID
  outstandingAmount : UInt64
  transferFee : UInt16
  maximumAmount : Option UInt64
  rest : List UInt8 := []
  deriving DecidableEq

structure MPTokenData where
  mptAmount : UInt64
  rest : List UInt8 := []
  deriving DecidableEq

class MPTRecords (Blob : Type) where
  parseMPTokenIssuance : Blob → Option MPTokenIssuanceData
  serializeMPTokenIssuance : MPTokenIssuanceData → Option Blob
  parseMPToken : Blob → Option MPTokenData
  serializeMPToken : MPTokenData → Option Blob

def issuer (id : ID) : AccountID :=
  Vector.ofFn fun i => id[i.val + 4]

def maximumAmount (issuance : MPTokenIssuanceData) : UInt64 :=
  issuance.maximumAmount.getD maxMPTokenAmount

def scaleRate (amount : Int64) (numeratorFactor denominatorValue : UInt64) : Option Int64 :=
  if denominatorValue = 0 then
    none
  else
    let numerator : Int := amount.toInt * numeratorFactor.toNat
    let denominator : Int := denominatorValue.toNat
    let quotient := numerator.tdiv denominator
    let remainder := numerator.tmod denominator
    let quotient :=
      if remainder ≠ 0 then
        let twiceRemainder := 2 * remainder.natAbs
        if twiceRemainder > denominator
            ∨ twiceRemainder = denominator ∧ quotient.natAbs % 2 = 1 then
          if numerator > 0 then quotient + 1 else quotient - 1
        else
          quotient
      else
        quotient
    if -2 ^ 63 ≤ quotient ∧ quotient < 2 ^ 63 then some (Int64.ofInt quotient) else none

def multiplyRate (amount : Int64) (rate : UInt32) : Option Int64 :=
  if amount = 0 ∨ rate = rateOne then
    some amount
  else
    scaleRate amount rate.toUInt64 rateOne.toUInt64

variable {Blob : Type} [MPTRecords Blob] [Sha512Half]

def readIssuance (id : ID) : TableProg Blob Result MPTokenIssuanceData := do
  let raw ← (read (Keylet.mptIssuance id)).mapError fun _ => tefINTERNAL
  let raw ← Prog.ofOption tecOBJECT_NOT_FOUND raw
  Prog.ofOption tefINTERNAL (MPTRecords.parseMPTokenIssuance raw)

def readHolding (id : ID) (account : AccountID) : TableProg Blob Result MPTokenData := do
  let raw ← (read (Keylet.mpTokenByID id account)).mapError fun _ => tefINTERNAL
  let raw ← Prog.ofOption tecNO_AUTH raw
  Prog.ofOption tefINTERNAL (MPTRecords.parseMPToken raw)

def writeHolding (id : ID) (account : AccountID) (token : MPTokenData)
    : TableProg Blob Result Unit := do
  let data ← Prog.ofOption tefINTERNAL (MPTRecords.serializeMPToken token)
  (update (Keylet.mpTokenByID id account) data).mapError fun _ => tefINTERNAL

def writeIssuance (id : ID) (issuance : MPTokenIssuanceData) : TableProg Blob Result Unit := do
  let data ← Prog.ofOption tefINTERNAL (MPTRecords.serializeMPTokenIssuance issuance)
  (update (Keylet.mptIssuance id) data).mapError fun _ => tefINTERNAL

def debitSide (id : ID) (issuance : MPTokenIssuanceData) (sender : AccountID) (value : UInt64)
    (allowOverflow : Bool)
    : TableProg Blob Result (UInt64 × Option MPTokenData) := do
  if sender = issuance.issuer then
    let maximum := maximumAmount issuance
    let limit := if allowOverflow then 0xFFFFFFFFFFFFFFFF else maximum
    if value > maximum ∨ issuance.outstandingAmount > limit - value then
      Prog.fail tecPATH_DRY
    else
      return (issuance.outstandingAmount + value, none)
  else
    let token ← readHolding id sender
    if token.mptAmount < value then
      Prog.fail tecINSUFFICIENT_FUNDS
    else
      return (issuance.outstandingAmount, some token)

def creditSide (id : ID) (issuance : MPTokenIssuanceData) (receiver : AccountID) (value : UInt64)
    (newOutstanding : UInt64)
    : TableProg Blob Result (UInt64 × Option MPTokenData) := do
  if receiver = issuance.issuer then
    if newOutstanding < value then
      Prog.fail tefINTERNAL
    else
      return (newOutstanding - value, none)
  else
    let token ← readHolding id receiver
    if token.mptAmount > 0xFFFFFFFFFFFFFFFF - value then
      Prog.fail tefINTERNAL
    else
      return (newOutstanding, some token)

-- The balance of a token that takes part; the issuer has none.
def writeBalance (id : ID) (account : AccountID) (token : Option MPTokenData)
    (change : UInt64 → UInt64)
    : TableProg Blob Result Unit :=
  token.elim (pure ()) fun token =>
    writeHolding id account { token with mptAmount := change token.mptAmount }

def writeCredit (id : ID) (issuance : MPTokenIssuanceData) (sender receiver : AccountID)
    (value : UInt64) (senderToken receiverToken : Option MPTokenData) (newOutstanding : UInt64)
    : TableProg Blob Result Unit := do
  writeBalance id sender senderToken (· - value)
  writeBalance id receiver receiverToken (· + value)
  if newOutstanding ≠ issuance.outstandingAmount then
    writeIssuance id { issuance with outstandingAmount := newOutstanding }
  else
    return ()

def credit (id : ID) (sender receiver : AccountID) (amount : Int64) (allowOverflow : Bool)
    : TableProg Blob Result Unit := do
  if amount < 0 then
    Prog.fail tefINTERNAL
  else if amount = 0 ∨ sender = receiver then
    return ()
  else
    let issuance ← readIssuance id
    let value := amount.toUInt64
    let debited ← debitSide id issuance sender value allowOverflow
    let credited ← creditSide id issuance receiver value debited.1
    writeCredit id issuance sender receiver value debited.2 credited.2 credited.1

def transferRateOf (issuance : Option MPTokenIssuanceData) : UInt32 :=
  issuance.elim rateOne fun issuance =>
    if issuance.transferFee = 0 then rateOne else rateOne + 10000 * issuance.transferFee.toUInt32

def transferRate (id : ID) : TableProg Blob Result UInt32 :=
  .call (.query (.read (Keylet.mptIssuance id))) fun (answer : Except Error (Option Blob)) =>
    pure (transferRateOf (answer.toOption.join.bind MPTRecords.parseMPTokenIssuance))

def grossAmount (id : ID) (amount : Int64) (waiveFee : Bool) : TableProg Blob Result Int64 := do
  if waiveFee then
    return amount
  else
    let rate ← transferRate id
    Prog.ofOption tefEXCEPTION (multiplyRate amount rate)

def send (id : ID) (sender receiver : AccountID) (amount : Int64) (waiveFee allowOverflow : Bool)
    : TableProg Blob Result Int64 := do
  if sender = receiver ∨ amount = 0 then
    return amount
  else if sender = issuer id ∨ receiver = issuer id then
    credit id sender receiver amount allowOverflow
    return amount
  else
    let gross ← grossAmount id amount waiveFee
    credit id (issuer id) receiver amount true
    credit id sender (issuer id) gross allowOverflow
    return gross

end MPT
