import GoXrpl.Engine.Impl.Recovery

/-!
This module contains the way of one transaction through the engine.
-/

open State ApplyState Program LedgerView

namespace Engine

open Ter

variable {Blob σ : Type} [Codec Blob] [Records Blob] [Sha512Half]

def isReapplyOnRetryTec (r : Result) : Bool :=
  r = tecOVERSIZE || r = tecKILLED || r = tecINCOMPLETE || r = tecEXPIRED

/--
The deletions that `applyTecRecovery` collects from the discarded table and repeats on the new one.
-/
structure PersistentDeletions (Blob : Type) where
  replay : Items Blob → Result → AccountRoot → TableProg Blob Result Unit
  keepsDrops : ∀ items result account, (replay items result account).All Access.KeepsDrops
  failsWith : ∀ items result account,
    (replay items result account).FailsWith fun r => r = tefINTERNAL ∨ r = tefBAD_LEDGER

def applyPreApplyAccountChanges (st : ApplyState Blob) : TableProg Blob Result AccountRoot := do
  let account := st.account
  let account :=
    if st.hasExternalFeePayer then account else { account with balance := account.balance - st.fee }
  let account :=
    match st.isTicket, st.tx.common.sequence with
    | false, some sequence => { account with sequence := sequence + 1 }
    | _, _ => account
  let account := if account.hasAccountTxnID then { account with accountTxnID := st.txHash } else account
  writeAccount st account
  return account

def consumeTicket (st : ApplyState Blob) (account : AccountRoot) : TableProg Blob Result AccountRoot :=
  match st.tx.common.ticketSequence with
  | none => return account
  | some ticketSequence => do
    eraseTicketEntry st.accountID ticketSequence
    writeAccount st (releaseTicket account)
    return releaseTicket account

def chargeBeforeApply (config : Config) (st : ApplyState Blob)
    : TableProg Blob Result (AccountRoot × UInt64) := do
  let account ← applyPreApplyAccountChanges st
  let chargedFee ← (payExternalFeeOnTable config { st with account } false).mapError
    fun failure => failure.result
  let account ← consumeTicket st account
  return (account, chargedFee)

def oversizeMetaDataCap : Nat := 5200

/--
How `doApply` gets to the invariant checkers, or ends before them.
-/
inductive Pending (Blob σ : Type) where
  | failed (result : Result) (chargedFee : UInt64) (view : Recording σ)
  | escaped (view : Recording σ)
  | checks (st : ApplyState Blob) (result : Result) (table : ApplyStateTable Blob (Recording σ))
      (failedFee : UInt64)

inductive Exit (Blob σ : Type) where
  | finished (f : Finished Blob σ)
  | escaped (view : Recording σ)

variable [DecidableEq Blob] [LedgerView Blob σ]

def applyTecRecovery (config : Config) (deletions : PersistentDeletions Blob) (st : ApplyState Blob)
    (items : Items Blob) (result : Result) (view : Recording σ)
    : Pending Blob σ :=
  let recovered := resetTable config st view
  match recovered.1, Records.parseAccountRoot st.originalAccountData with
  | .fail failure, _ => .failed failure.result failure.chargedFee recovered.2.base
  | .done chargedFee, some account =>
    let cleaned :=
      if isReapplyOnRetryTec result then
        (deletions.replay items result (recoveredAccount st account).1).run ApplyStateTable.step recovered.2
      else
        (.done (), recovered.2)
    match cleaned.1 with
    | .panic => .escaped cleaned.2.base
    | .fail r => .failed r chargedFee cleaned.2.base
    | .done _ =>
      if cleaned.2.base.cause.isSome then
        .failed tefEXCEPTION chargedFee cleaned.2.base
      else
        .checks { st with chargedFee } result cleaned.2 chargedFee
  | _, _ => .escaped recovered.2.base

/--
The end of `doApply` for a transaction that succeeded; `handled` is what the handler left.
-/
def applySuccess (st : ApplyState Blob) (table : ApplyStateTable Blob (Recording σ))
    : Pending Blob σ :=
  let updated :=
    if table.isErased st.accountKey then
      (.done (), table)
    else
      (writeAccount st st.account).run ApplyStateTable.step table
  match updated.1 with
  | .panic => .escaped updated.2.base
  | .fail r => .failed r 0 updated.2.base
  | .done _ => .checks st tesSUCCESS updated.2 0

def applyHandler (config : Config) (deletions : PersistentDeletions Blob) (st : ApplyState Blob)
    (table : ApplyStateTable Blob (Recording σ))
    : Pending Blob σ :=
  let handled := (st.tx.apply st.account).run ApplyStateTable.step table
  if handled.2.base.cause.isSome then
    .failed tefEXCEPTION 0 handled.2.base
  else
    match handled.1 with
    | .panic => .failed tefEXCEPTION 0 handled.2.base
    | .done (returned, account) =>
      if !isSuccess returned && !isTec returned then
        .failed returned 0 handled.2.base
      else
        let result := if handled.2.size > oversizeMetaDataCap then tecOVERSIZE else returned
        if isTec result && config.applyFlags.failHard then
          .failed result 0 handled.2.base
        else if isTec result && config.applyFlags.retry && !isReapplyOnRetryTec result then
          .failed result 0 handled.2.base
        else if isTec result then
          applyTecRecovery config deletions { st with account } handled.2.items result handled.2.base
        else
          applySuccess { st with account } handled.2

def Pending.finish (config : Config) : Pending Blob σ → Exit Blob σ
  | .failed result chargedFee view => .finished (.fail result chargedFee view)
  | .escaped view => .escaped view
  | .checks st result table failedFee => .finished (checkAndCommit config st result table failedFee)

-- The deferred function of `doApply`
def Exit.deferred : Exit Blob σ → Exit Blob σ
  | .escaped view => .escaped view
  | .finished f =>
    if f.view.cause.isSome then
      .finished { f with result := tefEXCEPTION, chargedFee := 0 }
    else
      .finished f

/--
The common beginning of `doApply` and `commitPreclaimTec`.
-/
def prepare (tx : Transaction Blob) (txHash : Hash256) (view : Recording σ)
    : Except Result (ApplyState Blob) × Recording σ :=
  let accountID := tx.common.account.decodeAccountID.getD (Vector.replicate 20 0)
  let accountKey := Keylet.account accountID
  let answer := read accountKey view
  match answer.1 with
  | .error _ => (.error tefINTERNAL, answer.2)
  | .ok none => (.error tefINTERNAL, answer.2)
  | .ok (some accountData) =>
    match Records.parseAccountRoot accountData with
    | none => (.error tefINTERNAL, answer.2)
    | some account =>
      let payer := (getFeePayer tx.common : ViewProg Blob Result FeePayer).run query answer.2
      match payer.1 with
      | .fail r => (.error r, payer.2)
      | .panic => (.error tefINTERNAL, payer.2)
      | .done feePayer =>
        (.ok {
          tx, accountID, accountKey, account
          originalAccountData := accountData
          fee := tx.calculateFee
          chargedFee := tx.calculateFee
          feePayer, txHash }, payer.2)

-- `doApply` as far as the invariant checkers
def beforeChecks (config : Config) (deletions : PersistentDeletions Blob) (tx : Transaction Blob)
    (txHash : Hash256) (view : Recording σ)
    : Pending Blob σ :=
  let prepared := prepare tx txHash view
  match prepared.1 with
  | .error r => .failed r 0 prepared.2
  | .ok st =>
    let table := (chargeBeforeApply config st).run ApplyStateTable.step (newTable config txHash prepared.2)
    match table.1 with
    | .panic => .escaped table.2.base
    | .fail r => .failed r 0 table.2.base
    | .done (account, chargedFee) =>
      applyHandler config deletions { st with account, chargedFee } table.2

def doApply (config : Config) (deletions : PersistentDeletions Blob) (tx : Transaction Blob)
    (txHash : Hash256) (view : Recording σ)
    : Exit Blob σ :=
  ((beforeChecks config deletions tx txHash view).finish config).deferred

def commitPreclaimTec (config : Config) (tx : Transaction Blob) (txHash : Hash256) (origResult : Result)
    (view : Recording σ)
    : Finished Blob σ :=
  let prepared := prepare tx txHash view
  match prepared.1 with
  | .error r => .fail r 0 prepared.2
  | .ok st =>
    let tecTable := resetTable config st prepared.2
    match tecTable.1 with
    | .panic => .fail tefINTERNAL 0 tecTable.2.base
    | .fail failure => .fail failure.result 0 tecTable.2.base
    | .done chargedFee => checkAndCommit config { st with chargedFee } origResult tecTable.2 0

structure ApplyResult (Blob : Type) where
  result : Result
  applied : Bool
  fee : UInt64 := 0
  metadata : Option (Metadata Blob) := none
  cause : Option Error := none

structure Applied (Blob σ : Type) where
  result : Option (ApplyResult Blob)
  committed : Option (Metadata Blob)
  view : Recording σ

def Applied.rejected (result : Result) (view : Recording σ) (cause : Option Error := none)
    : Applied Blob σ where
  result := some { result, applied := false, cause }
  committed := none
  view

/--
The end of `applyWithContext`.
-/
def conclude (config : Config) (f : Finished Blob σ) : Applied Blob σ :=
  let flags := config.applyFlags
  let applied := isApplied f.result
    && !(isTec f.result && flags.failHard)
    && !(isTec f.result && flags.retry && !isReapplyOnRetryTec f.result)
  { result := some {
      result := f.result
      applied := applied && !flags.dryRun
      fee := f.chargedFee
      metadata := if applied then some (f.metadata.getD []) else none }
    committed := if flags.dryRun then none else f.metadata
    view := f.view }

-- What `applyWithContext` makes of `doApply`
def Exit.report (config : Config) : Exit Blob σ → Applied Blob σ
  | .escaped view => { result := none, committed := none, view }
  | .finished f =>
    if f.view.cause.isSome then
      { (Applied.rejected f.result f.view f.view.cause : Applied Blob σ) with
        committed := if config.applyFlags.dryRun then none else f.metadata }
    else
      conclude config f

structure Claimed (σ : Type) where
  txHash : Hash256
  result : Result
  preclaimCause : Option Error
  view : Recording σ

-- `applyWithContext` as far as `doApply` and `commitPreclaimTec`
def beforeApply (config : Config) (tx : Transaction Blob) (view : σ)
    : Except (Applied Blob σ) (Claimed σ) :=
  let view : Recording σ := { view, cause := none }
  if tx.isPseudoTransaction then
    .error (.rejected temINVALID view)
  else if !isSuccess tx.preflight then
    .error (.rejected tx.preflight view)
  else
    match tx.hash with
    | none => .error (.rejected tefINTERNAL view)
    | some txHash =>
      if txHash = .zero then
        .error (.rejected temINVALID view)
      else
        let claimed := tx.preclaim.run query view
        let view := claimed.2.resetStateErrors
        match claimed.1 with
        | .panic => .error { result := none, committed := none, view := claimed.2 }
        | .done (result, cause) =>
          let preclaimCause := cause.or claimed.2.cause
          if !isSuccess result && !isTec result then
            .error (.rejected result view preclaimCause)
          else if isTec result && config.applyFlags.retry then
            .error (.rejected result view preclaimCause)
          else
            let baseFee := tx.calculateBaseFee.run query view
            match baseFee.1 with
            | .done _ => .ok { txHash, result, preclaimCause, view := baseFee.2 }
            | _ =>
              -- A panic of the calculation is recovered inside it and comes back as an error.
              let r := if baseFee.2.cause.isSome then tefEXCEPTION else tefINTERNAL
              .error (.rejected r baseFee.2 baseFee.2.cause)

def applyWithContext (config : Config) (deletions : PersistentDeletions Blob) (tx : Transaction Blob)
    (view : σ)
    : Applied Blob σ :=
  match beforeApply config tx view with
  | .error rejected => rejected
  | .ok c =>
    if isSuccess c.result then
      (doApply config deletions tx c.txHash c.view).report config
    else if config.applyFlags.failHard then
      .rejected c.result c.view c.preclaimCause
    else
      let f := commitPreclaimTec config tx c.txHash c.result c.view
      if f.view.cause.isSome then
        { (Applied.rejected tefEXCEPTION f.view f.view.cause : Applied Blob σ) with
          committed := if config.applyFlags.dryRun then none else f.metadata }
      else if !isTec f.result then
        { (Applied.rejected f.result f.view c.preclaimCause : Applied Blob σ) with
          committed := if config.applyFlags.dryRun then none else f.metadata }
      else
        conclude config f

end Engine
