import GoXrpl.Engine.Impl.Config
import GoXrpl.ApplyState.Impl.Commit

/-!
This module contains the inner transactions of a `Batch`: how each is handed to the engine, and what
the four modes make of the answers.
-/

open State ApplyState

namespace BatchTx

open Engine Engine.Ter

def batchFlagAllOrNothing : UInt32 := 0x00010000
def batchFlagOnlyOne : UInt32 := 0x00020000
def batchFlagUntilFailure : UInt32 := 0x00040000
def batchFlagIndependent : UInt32 := 0x00080000

variable {Blob Tx σ : Type}

structure TxMetadata (Blob : Type) where
  affectedNodes : Metadata Blob
  transactionIndex : UInt32
  transactionResult : Result

structure AppliedInnerTransaction (Blob Tx : Type) where
  transaction : Tx
  -- `nil` is possible here
  metadata : Option (TxMetadata Blob)

structure ApplyResult (Blob Tx : Type) where
  result : Result
  applied : Bool
  metadata : Option (TxMetadata Blob) := none
  cause : Option Error := none
  appliedInnerTransactions : List (AppliedInnerTransaction Blob Tx) := []

inductive Session (Blob α : Type) where
  | done (a : α)
  | query (q : Query) (next : q.Reply Blob → Session Blob α)
  | write (w : Write Blob) (next : Option Error → Session Blob α)
  | applyAtomically (body : Writer Blob) (next : Option Error → Session Blob α)

abbrev InnerTransactionEngine (Blob Tx : Type) :=
  Tx → Hash256 → UInt32 → Session Blob (ApplyResult Blob Tx)

structure ApplyContext (Blob Tx σ : Type) where
  view : σ
  ledgerSequence : UInt32
  fixPreviousTxnID : Bool
  txHash : Hash256
  transactionIndex : UInt32
  innerTransactionEngine : Option (InnerTransactionEngine Blob Tx)
  cause : Option Error := none

structure Batch (Tx : Type) where
  flags : UInt32
  -- `RawTransaction.InnerTx` of each; it may be `nil`
  rawTransactions : List (Option Tx)

variable [LedgerView Blob σ]

def Session.run {α : Type} : Session Blob α → σ → α × σ
  | .done a, s => (a, s)
  | .query q next, s => (next (LedgerView.query q s).1).run (LedgerView.query q s).2
  | .write w next, s => (next (LedgerView.write w s).1).run (LedgerView.write w s).2
  | .applyAtomically body next, s =>
    (next (LedgerView.applyAtomically body s).1).run (LedgerView.applyAtomically body s).2

def applyInnerWithEngine (ctx : ApplyContext Blob Tx σ) (innerTx : Tx) (transactionIndex : UInt32)
    : (Result × Option (TxMetadata Blob)) × ApplyContext Blob Tx σ :=
  match ctx.innerTransactionEngine with
  | none => ((tefINTERNAL, none), ctx)
  | some engine =>
    let answer := (engine innerTx ctx.txHash transactionIndex).run ctx.view
    let result := answer.1
    let ctx := { ctx with view := answer.2, cause := ctx.cause.or result.cause }
    if !result.applied then
      ((result.result, none), ctx)
    else
      ((result.result, result.metadata), ctx)

structure Progress (Blob Tx σ : Type) where
  ctx : ApplyContext Blob Tx σ
  appliedInners : List (AppliedInnerTransaction Blob Tx) := []

def Progress.nextIndex (p : Progress Blob Tx σ) : UInt32 :=
  p.ctx.transactionIndex + 1 + UInt32.ofNat p.appliedInners.length

def Progress.attempt (p : Progress Blob Tx σ) (innerTx : Option Tx) : Bool × Progress Blob Tx σ :=
  -- A missing transaction counts as a failure.
  innerTx.elim (false, p) fun innerTx =>
    let answer := applyInnerWithEngine p.ctx innerTx p.nextIndex
    let appliedInners :=
      if answer.1.2.isSome then
        p.appliedInners ++ [{ transaction := innerTx, metadata := answer.1.2 }]
      else
        p.appliedInners
    (isSuccess answer.1.1, { ctx := answer.2, appliedInners })

def applyEach (isOnlyOne isUntilFailure : Bool)
    : List (Option Tx) → Progress Blob Tx σ → Progress Blob Tx σ
  | [], p => p
  | innerTx :: innerTxns, p =>
    let attempt := p.attempt innerTx
    if attempt.1 then
      if isOnlyOne then attempt.2 else applyEach isOnlyOne isUntilFailure innerTxns attempt.2
    else
      if isUntilFailure then attempt.2 else applyEach isOnlyOne isUntilFailure innerTxns attempt.2

def applyAll : List (Option Tx) → Progress Blob Tx σ → Option Unit × Progress Blob Tx σ
  | [], p => (some (), p)
  | none :: _, p => (none, p)
  | some innerTx :: innerTxns, p =>
    let answer := applyInnerWithEngine p.ctx innerTx p.nextIndex
    if !isSuccess answer.1.1 then
      (none, { p with ctx := answer.2 })
    else
      applyAll innerTxns {
        ctx := answer.2
        appliedInners := p.appliedInners ++ [{ transaction := innerTx, metadata := answer.1.2 }] }

structure Outcome (Blob Tx σ : Type) where
  result : Result
  appliedInners : List (AppliedInnerTransaction Blob Tx)
  ctx : ApplyContext Blob Tx σ

variable [DecidableEq Blob] [Codec Blob] [Sha512Half]

def applyAllOrNothing (ctx : ApplyContext Blob Tx σ) (innerTxns : List (Option Tx))
    : Outcome Blob Tx σ :=
  let batchTable : ApplyStateTable Blob σ :=
    ApplyStateTable.newApplyStateTable ctx.view ctx.txHash ctx.ledgerSequence ctx.fixPreviousTxnID
  let batchCtx : ApplyContext Blob Tx (ApplyStateTable Blob σ) :=
    { ctx with view := batchTable, cause := none }
  let applied := applyAll innerTxns { ctx := batchCtx }
  let table := applied.2.ctx.view
  let ctx := { ctx with cause := applied.2.ctx.cause }
  match applied.1 with
  | none => { result := tesSUCCESS, appliedInners := [], ctx := { ctx with view := table.base } }
  | some _ =>
    let committed := table.applyUnthreaded
    let ctx := { ctx with view := committed.2.base }
    match committed.1 with
    | .error _ => { result := tefINTERNAL, appliedInners := [], ctx }
    | .ok _ => { result := tesSUCCESS, appliedInners := applied.2.appliedInners, ctx }

def Batch.applyInnerTransactions (b : Batch Tx) (ctx : ApplyContext Blob Tx σ)
    : Outcome Blob Tx σ :=
  if b.rawTransactions.isEmpty then
    { result := temINVALID, appliedInners := [], ctx }
  else
    let isAllOrNothing := b.flags &&& batchFlagAllOrNothing != 0
    let isOnlyOne := b.flags &&& batchFlagOnlyOne != 0
    let isUntilFailure := b.flags &&& batchFlagUntilFailure != 0
    if isAllOrNothing then
      applyAllOrNothing ctx b.rawTransactions
    else
      let p := applyEach isOnlyOne isUntilFailure b.rawTransactions { ctx }
      { result := tesSUCCESS, appliedInners := p.appliedInners, ctx := p.ctx }

structure Host (Blob Tx σ : Type) where
  view : σ
  ledgerSequence : UInt32
  fixPreviousTxnID : Bool
  innerTransactionEngine : InnerTransactionEngine Blob Tx
  txCount : UInt32

def Host.innerContext (e : Host Blob Tx σ) (txHash : Hash256) (metadata : TxMetadata Blob)
    : ApplyContext Blob Tx σ where
  view := e.view
  ledgerSequence := e.ledgerSequence
  fixPreviousTxnID := e.fixPreviousTxnID
  txHash
  transactionIndex := metadata.transactionIndex
  innerTransactionEngine := some e.innerTransactionEngine

/--
The batch of a transaction of the ledger; `outer` is the answer of the engine to the batch itself.
-/
def Host.applyBatchInnerTransactions (e : Host Blob Tx σ) (batch : Batch Tx) (hash : Option Hash256)
    (outer : ApplyResult Blob Tx)
    : ApplyResult Blob Tx × Host Blob Tx σ :=
  if !outer.applied || !isSuccess outer.result then
    (outer, e)
  else
    match outer.metadata, hash with
    | none, _ => ({ result := tefINTERNAL, applied := false }, e)
    | _, none => ({ result := tefINTERNAL, applied := false }, e)
    | some metadata, some txHash =>
      let inner := batch.applyInnerTransactions (e.innerContext txHash metadata)
      let e := { e with view := inner.ctx.view }
      if !isSuccess inner.result then
        let result := if inner.ctx.cause.isSome then tefEXCEPTION else inner.result
        ({ result, applied := false, cause := inner.ctx.cause }, e)
      else if inner.ctx.cause.isSome then
        ({ result := tefEXCEPTION, applied := false, cause := inner.ctx.cause }, e)
      else
        ({ outer with appliedInnerTransactions := inner.appliedInners },
          { e with txCount := e.txCount + UInt32.ofNat inner.appliedInners.length })

end BatchTx
