import GoXrpl.Invariants.Basic

/-!
This module contains what the engine is given: result codes, flags, the configuration and a
transaction.
-/

namespace Engine

open State ApplyState Program

abbrev Result := Int

namespace Ter

def tesSUCCESS : Result := 0
def tecCLAIM : Result := 100
def tecINSUFF_FEE : Result := 136
def tecOVERSIZE : Result := 145
def tecINVARIANT_FAILED : Result := 147
def tecEXPIRED : Result := 148
def tecKILLED : Result := 150
def tecINCOMPLETE : Result := 169
def temINVALID : Result := -277
def tefBAD_LEDGER : Result := -195
def tefEXCEPTION : Result := -193
def tefINTERNAL : Result := -192
def tefINVARIANT_FAILED : Result := -182
def terINSUF_FEE_B : Result := -97
def terNO_ACCOUNT : Result := -96

def isSuccess (r : Result) : Bool := r = tesSUCCESS
def isTec (r : Result) : Bool := r ≥ tecCLAIM
def isApplied (r : Result) : Bool := isSuccess r || isTec r

end Ter

open Ter

structure ApplyFlags where
  failHard : Bool
  retry : Bool
  dryRun : Bool
  deriving DecidableEq

structure Config where
  applyFlags : ApplyFlags
  openLedger : Bool := false
  enforceLoadFee : Bool := false
  viewOpen : Bool := false
  ledgerSequence : UInt32
  reserveBase : UInt64
  reserveIncrement : UInt64
  -- the only amendment that the tables ask for
  fixPreviousTxnID : Bool := true

def Config.isViewOpen (config : Config) : Bool :=
  config.openLedger || config.enforceLoadFee || config.viewOpen

def Config.accountReserveWithCounts (config : Config) (ownerCount accountCount : UInt32) : UInt64 :=
  accountCount.toUInt64 * config.reserveBase + ownerCount.toUInt64 * config.reserveIncrement

-- An address field of a transaction: a string that is empty, does not decode, or names an account
inductive Address where
  | empty
  | invalid
  | account (accountID : AccountID)
  deriving DecidableEq

def Address.decodeAccountID : Address → Option AccountID
  | .account accountID => some accountID
  | _ => none

structure Common where
  account : Address
  -- `strconv.ParseUint` of `Fee`; `none` for a field that is empty or not a number
  fee : Option UInt64
  sequence : Option UInt32
  ticketSequence : Option UInt32 := none
  delegate : Address := .empty
  sponsor : Address := .empty
  sponsorFlags : Option UInt32 := none

def spfSponsorFee : UInt32 := 1

/--
A transaction together with what is not modelled of its way through the engine; `apply` is the
handler of the transaction type.
-/
structure Transaction (Blob : Type) where
  common : Common
  isPseudoTransaction : Bool := false
  preflight : Result
  -- `none` where the hash cannot be computed
  hash : Option Hash256
  preclaim : ViewProg Blob Empty (Result × Option Error)
  calculateBaseFee : ViewProg Blob Error UInt64
  calculateDefaultBaseFee : UInt64 := 10
  apply : AccountRoot → TableProg Blob Empty (Result × AccountRoot)
  invariants : Invariants.Checkers Blob

def Transaction.calculateFee {Blob : Type} (tx : Transaction Blob) : UInt64 :=
  tx.common.fee.getD tx.calculateDefaultBaseFee

def parseTxDeclaredFee {Blob : Type} (tx : Transaction Blob) (fallback : UInt64) : UInt64 :=
  tx.common.fee.getD fallback

inductive FeePayerType where
  | account
  | delegate
  | sponsorCoSigned
  | sponsorPreFunded
  deriving DecidableEq

structure FeePayer where
  keylet : Keylet
  payerTy : FeePayerType
  deriving DecidableEq

structure ApplyState (Blob : Type) where
  tx : Transaction Blob
  accountID : AccountID
  accountKey : Keylet
  account : AccountRoot
  originalAccountData : Blob
  fee : UInt64
  chargedFee : UInt64
  feePayer : FeePayer
  txHash : Hash256

namespace ApplyState

variable {Blob : Type}

def isDelegated (st : ApplyState Blob) : Bool :=
  st.tx.common.delegate ≠ .empty

def isTicket (st : ApplyState Blob) : Bool :=
  st.tx.common.ticketSequence.isSome

def hasExternalFeePayer (st : ApplyState Blob) : Bool :=
  st.isDelegated || st.feePayer.payerTy ≠ .account

end ApplyState

structure Failure where
  result : Result
  chargedFee : UInt64

end Engine
