import GoXrpl.Engine.Impl.Config
import GoXrpl.State.Impl.Directory
import GoXrpl.ApplyState.Impl.Commit

/-!
This module contains the view that keeps the first error of an access, the payer of a fee, and the
way from a table through the invariant checkers into the view.
-/

open State ApplyState Program Invariants LedgerView Records

namespace State

variable {Blob : Type}

def Query.error : (q : Query) → q.Reply Blob → Option Error
  | .read _, answer => answerError answer
  | .has _, answer => answerError answer
  | .succ _, answer => answerError answer
  | .forEach, answer => answerError answer
  | .txExists _, answer => answerError answer
where
  answerError {α : Type} : Except Error α → Option Error
    | .error err => some err
    | .ok _ => none

def Writer.recording : Option Error → Writer Blob → Writer Blob
  | _, .done (some err) => .done (some err)
  | cause, .done none => .done cause
  | cause, .write w next => .write w fun err => (next err).recording (cause.or err)

end State

namespace Engine

open Ter

structure Recording (σ : Type) where
  view : σ
  cause : Option Error

section

variable {Blob σ : Type} [LedgerView Blob σ]

instance : LedgerView Blob (Recording σ) where
  query q s :=
    let answer := query q s.view
    (answer.1, { view := answer.2, cause := s.cause.or (q.error answer.1) })
  write w s :=
    let answer := write w s.view
    (answer.1, { view := answer.2, cause := s.cause.or answer.1 })
  applyAtomically apply s :=
    let answer := applyAtomically (apply.recording s.cause) s.view
    (answer.1, { view := answer.2, cause := s.cause.or answer.1 })

def Recording.resetStateErrors (s : Recording σ) : Recording σ :=
  { s with cause := none }

end

section

variable {Blob : Type} [Records Blob] [Sha512Half]

def isFeeSponsored (common : Common) : Bool :=
  common.sponsor ≠ .empty && match common.sponsorFlags with
    | none => false
    | some flags => flags &&& spfSponsorFee ≠ 0

def getFeePayer (common : Common) : ViewProg Blob Result FeePayer :=
  if isFeeSponsored common then do
    let sponsorID ← (Prog.ofOption terNO_ACCOUNT common.sponsor.decodeAccountID : ViewProg Blob Result _)
    let initiator := if common.delegate ≠ .empty then common.delegate else common.account
    let initiatorID ← (Prog.ofOption terNO_ACCOUNT initiator.decodeAccountID : ViewProg Blob Result _)
    let sponsorshipKey := Keylet.sponsorship sponsorID initiatorID
    .call (.has sponsorshipKey) fun (answer : Except Error Bool) =>
      match answer with
      | .error _ => .fail tefINTERNAL
      | .ok true => .pure { keylet := sponsorshipKey, payerTy := .sponsorPreFunded }
      | .ok false => .pure { keylet := Keylet.account sponsorID, payerTy := .sponsorCoSigned }
  else if common.delegate = .empty then
    -- The source account itself has no key of its own here.
    .pure { keylet := .ofKey .zero, payerTy := .account }
  else
    match common.delegate.decodeAccountID with
    | none => .fail terNO_ACCOUNT
    | some payerID => .pure { keylet := Keylet.account payerID, payerTy := .delegate }

def accountReserve (config : Config) (account : AccountRoot) : Option UInt64 :=
  if account.sponsoredOwnerCount > account.ownerCount then
    none
  else
    let owners := (account.ownerCount - account.sponsoredOwnerCount).toUInt64
      + account.sponsoringOwnerCount.toUInt64
    let accounts := account.sponsoringAccountCount.toUInt64 + if account.hasSponsor then 0 else 1
    if owners > 0xFFFFFFFF ∨ accounts > 0xFFFFFFFF then
      none
    else
      some (config.accountReserveWithCounts owners.toUInt32 accounts.toUInt32)

def feePayerBalanceAndSpendable (config : Config) (payer : FeePayer) (source : AccountRoot)
    : TableProg Blob Result (UInt64 × UInt64) := do
  if payer.payerTy = .account then
    return (source.balance, source.balance)
  else
    let data ← (Access.readBelow payer.keylet).mapError fun _ => tefINTERNAL
    match data with
    | none => .fail (if payer.payerTy = .sponsorPreFunded then tefINTERNAL else terNO_ACCOUNT)
    | some data =>
      if payer.payerTy = .sponsorPreFunded then
        let sponsorship ← Prog.ofOption tefINTERNAL (parseSponsorship data)
        let balance := if sponsorship.hasFeeAmount then sponsorship.feeAmount else 0
        return (balance, if sponsorship.hasMaxFee then min balance sponsorship.maxFee else balance)
      else
        let account ← Prog.ofOption tefINTERNAL (parseAccountRoot data)
        if payer.payerTy = .sponsorCoSigned then
          let reserve ← Prog.ofOption tefINTERNAL (accountReserve config account)
          let spendable := if account.balance > reserve then account.balance - reserve else 0
          return (account.balance, spendable)
        else
          return (account.balance, account.balance)

-- The entry of the payer with another balance
def setFeePayerBalance (payer : FeePayer) (balance : UInt64) (data : Blob) : Option Blob :=
  if payer.payerTy = .sponsorPreFunded then
    (parseSponsorship data).bind fun sponsorship =>
      serializeSponsorship
        { sponsorship with feeAmount := balance, hasFeeAmount := balance ≠ 0 }
  else
    (parseAccountRoot data).bind fun account =>
      serializeAccountRoot { account with balance }

-- Lowers the stored balance of the payer on the table.
def chargeFeePayer (payer : FeePayer) (balance fee : UInt64) : TableProg Blob Result Unit := do
  let data ← (Access.readBelow payer.keylet).mapError fun _ => tefINTERNAL
  let data ← Prog.ofOption tefINTERNAL data
  let updated ← Prog.ofOption tefINTERNAL (setFeePayerBalance payer (balance - fee) data)
  (Access.update payer.keylet updated).mapError fun _ => tefINTERNAL

def payExternalFeeOnTable (config : Config) (st : ApplyState Blob) (recovery : Bool)
    : TableProg Blob Failure UInt64 := do
  if !st.hasExternalFeePayer then
    return st.chargedFee
  else
    let funds ← (feePayerBalanceAndSpendable config st.feePayer st.account).mapError
      fun r => { result := r, chargedFee := st.chargedFee }
    let balance := funds.1
    let spendable := funds.2
    if st.fee > spendable ∧ !recovery
        ∧ (st.feePayer.payerTy = .sponsorPreFunded ∨ st.feePayer.payerTy = .sponsorCoSigned) then
      .fail {
        result := if spendable > 0 ∧ !config.isViewOpen then tecINSUFF_FEE else terINSUF_FEE_B
        chargedFee := st.chargedFee }
    else
      let fee := min st.fee spendable
      if fee = 0 then
        return fee
      else
        (chargeFeePayer st.feePayer balance fee).mapError
          fun r => { result := r, chargedFee := fee }
        return fee

end

variable {Blob σ : Type} [Codec Blob] [Records Blob] [Sha512Half]

def eraseTicketEntry (accountID : AccountID) (ticketSequence : UInt32) : TableProg Blob Result Unit := do
  let ticketKey := Keylet.ticket accountID ticketSequence
  let ownerDirKey := Keylet.ownerDir accountID
  let ticketData ← (Access.read ticketKey).mapError fun _ => tefBAD_LEDGER
  let ticketData ← Prog.ofOption tefBAD_LEDGER ticketData
  let ticketOwnerNode ← Prog.ofOption tefBAD_LEDGER (getOwnerNode ticketData)
  let success ← (dirRemove ownerDirKey ticketOwnerNode ticketKey.key true).mapError
    fun _ => tefBAD_LEDGER
  if !success then
    .fail tefBAD_LEDGER
  else
    (Access.erase ticketKey).mapError fun _ => tefINTERNAL

-- The account root with one ticket less
def releaseTicket (account : AccountRoot) : AccountRoot :=
  { account with
    ownerCount := if account.ownerCount > 0 then account.ownerCount - 1 else account.ownerCount
    ticketCount := if account.ticketCount > 0 then account.ticketCount - 1 else account.ticketCount }

-- `SerializeAccountRoot` and `Update`
def writeAccount (st : ApplyState Blob) (account : AccountRoot) : TableProg Blob Result Unit := do
  let data ← (Prog.ofOption tefINTERNAL (serializeAccountRoot account)
    : TableProg Blob Result Blob)
  (Access.update st.accountKey data).mapError fun _ => tefINTERNAL

def consumeTicketForRecovery (st : ApplyState Blob) : TableProg Blob Failure Unit :=
  match st.tx.common.ticketSequence with
  | none => pure ()
  | some ticketSequence =>
    (eraseTicketEntry st.accountID ticketSequence).mapError
      fun r => { result := r, chargedFee := st.chargedFee }

def recoveredAccount (st : ApplyState Blob) (account : AccountRoot) : AccountRoot × UInt64 :=
  let fee := min st.fee account.balance
  let chargedFee := if st.hasExternalFeePayer then st.chargedFee else fee
  let account :=
    if st.hasExternalFeePayer then account else { account with balance := account.balance - fee }
  let account :=
    match st.isTicket, st.tx.common.sequence with
    | false, some sequence => { account with sequence := sequence + 1 }
    | _, _ => account
  (if st.isTicket then releaseTicket account else account, chargedFee)

def writeRecoveryAccount (st : ApplyState Blob) (account : AccountRoot)
    : TableProg Blob Failure UInt64 := do
  let recovered := recoveredAccount st account
  (writeAccount st recovered.1).mapError fun r => { result := r, chargedFee := recovered.2 }
  return recovered.2

/--
What `applyTecRecovery`, `applyInvariantViolation` and `commitPreclaimTec` do to a fresh table.
-/
def reset (config : Config) (st : ApplyState Blob) : TableProg Blob Failure UInt64 := do
  consumeTicketForRecovery st
  let account ← Prog.ofOption { result := tefINTERNAL, chargedFee := st.chargedFee }
    (parseAccountRoot st.originalAccountData)
  let chargedFee ← writeRecoveryAccount st account
  payExternalFeeOnTable config { st with chargedFee } true

structure Finished (Blob σ : Type) where
  result : Result
  chargedFee : UInt64
  metadata : Option (Metadata Blob)
  view : Recording σ

def Finished.fail (result : Result) (chargedFee : UInt64) (view : Recording σ) : Finished Blob σ where
  result
  chargedFee
  metadata := none
  view

variable [DecidableEq Blob] [LedgerView Blob σ]

def newTable (config : Config) (txHash : Hash256) (view : Recording σ)
    : ApplyStateTable Blob (Recording σ) :=
  .newApplyStateTable view txHash config.ledgerSequence config.fixPreviousTxnID

-- The fee charged on a fresh table
def resetTable (config : Config) (st : ApplyState Blob) (view : Recording σ)
    : Outcome Failure UInt64 × ApplyStateTable Blob (Recording σ) :=
  (reset config st).run ApplyStateTable.step (newTable config st.txHash view)

-- The beginning of `applyTable`: on a closed view the fee is destroyed.
def chargedTable (config : Config) (table : ApplyStateTable Blob (Recording σ)) (fee : UInt64)
    : ApplyStateTable Blob (Recording σ) :=
  if config.isViewOpen then table else (table.adjustDropsDestroyed fee.toInt64).2

def applyTable (config : Config) (table : ApplyStateTable Blob (Recording σ)) (fee : UInt64)
    : Except Error (Metadata Blob) × Recording σ :=
  let table := chargedTable config table fee
  if config.applyFlags.dryRun then
    let previewed := table.preview
    (previewed.1, previewed.2.base)
  else if config.isViewOpen then
    -- The metadata shows the threading, which is not committed to an open view.
    let previewed := table.preview
    match previewed.1 with
    | .error err => (.error err, previewed.2.base)
    | .ok metadata =>
      let applied := previewed.2.applyUnthreaded
      match applied.1 with
      | .error err => (.error err, applied.2.base)
      | .ok _ => (.ok metadata, applied.2.base)
  else
    let applied := table.apply
    (applied.1, applied.2.base)

/--
The checks of the callers of `applyTable`, the commit and its result.
-/
def commit (config : Config) (table : ApplyStateTable Blob (Recording σ)) (result : Result)
    (chargedFee failedFee : UInt64)
    : Finished Blob σ :=
  if table.base.cause.isSome then
    .fail tefEXCEPTION failedFee table.base
  else
    let applied := applyTable config table chargedFee
    match applied.1 with
    | .error _ => .fail tefINTERNAL failedFee applied.2
    | .ok metadata => { result, chargedFee, metadata := some metadata, view := applied.2 }

def runChecks (st : ApplyState Blob) (result : Result) (chargedFee : UInt64)
    (table : ApplyStateTable Blob (Recording σ))
    : Outcome Empty (Option InvariantViolation) × ApplyStateTable Blob (Recording σ) :=
  (checkInvariants st.tx.invariants result chargedFee (parseTxDeclaredFee st.tx st.fee)
    (collectEntries table)).run query table

def applyInvariantViolation (config : Config) (st : ApplyState Blob) (view : Recording σ)
    : Finished Blob σ :=
  let invTecTable := resetTable config st view
  match invTecTable.1 with
  | .panic => .fail tefINVARIANT_FAILED st.chargedFee invTecTable.2.base
  | .fail failure => .fail failure.result failure.chargedFee invTecTable.2.base
  | .done chargedFee =>
    if invTecTable.2.base.cause.isSome then
      .fail tefEXCEPTION chargedFee invTecTable.2.base
    else
      let checked := runChecks st tecINVARIANT_FAILED chargedFee invTecTable.2
      match checked.1 with
      | .panic => .fail tefINVARIANT_FAILED chargedFee checked.2.base
      | .done (some _) => .fail tefINVARIANT_FAILED 0 checked.2.base
      | .done none => commit config checked.2 tecINVARIANT_FAILED chargedFee chargedFee

/--
`runInvariantsOnTable` and, when the table passes, the commit of it.
-/
def checkAndCommit (config : Config) (st : ApplyState Blob) (result : Result)
    (table : ApplyStateTable Blob (Recording σ)) (failedFee : UInt64)
    : Finished Blob σ :=
  let checked := runChecks st result st.chargedFee table
  match checked.1 with
  | .done none => commit config checked.2 result st.chargedFee failedFee
  | _ =>
    let handled := applyInvariantViolation config st checked.2.base
    if handled.view.cause.isSome then { handled with result := tefEXCEPTION } else handled

end Engine
