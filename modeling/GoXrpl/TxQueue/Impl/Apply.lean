import GoXrpl.TxQueue.Impl.Queue

/-!
This module contains the submission of a transaction, which is applied at once, queued or rejected.
-/

namespace TxQueue

open State (AccountID)
open Engine (Result)
open Engine.Ter
open Ter

structure ApplyResult where
  result : Result
  applied : Bool
  queued : Bool
  deriving DecidableEq

def rejected (result : Result) : ApplyResult := { result, applied := false, queued := false }

structure ApplyContext where
  getAccountSequence : AccountID → Option UInt32
  accountExists : AccountID → Option Bool
  ticketExists : AccountID → UInt32 → Option Bool
  getAccountBalance : AccountID → Option UInt64
  getAccountReserve : UInt32 → UInt64
  getBaseFees : Nat → Transaction → Except (Option Result) (UInt64 × UInt64)
  getReferenceFee : UInt64
  getTxInLedger : UInt32
  getLedgerSequence : UInt32
  applyTransactionWithFlags : Transaction → ApplyFlags → Result × Bool
  preflightTransactionWithFlags : Transaction → ApplyFlags → Result
  preclaimTransactionWithFlags : Transaction → AccountID → UInt64 → UInt32 → ApplyFlags → Result
  getApplyFlags : ApplyFlags
  rulesIdentity : Nat
  newSandbox : Bool
  sandboxApply : Nat → Option Transaction → ApplyFlags → Result × Bool
  sandboxCommit : Bool

namespace ApplyContext

def isDryRun (ctx : ApplyContext) : Bool := ctx.getApplyFlags &&& tapDRY_RUN ≠ 0

def storedFlags (ctx : ApplyContext) : ApplyFlags := ctx.getApplyFlags &&& ~~~tapRETRY

end ApplyContext

structure Submission where
  txn : Transaction
  blob : List UInt8
  txID : Hash256
  account : AccountID
  acctSeq : UInt32
  seqProxy : SeqProxy

namespace Submission

def lastValid (s : Submission) : UInt32 := s.txn.lastLedgerSequence.getD 0

def acctSeqProx (s : Submission) : SeqProxy := .newSequence s.acctSeq

def canDirectApply (s : Submission) : Bool := s.seqProxy.isTicket ∨ s.seqProxy.value = s.acctSeq

def consequences (s : Submission) : TxConsequences := computeConsequences s.txn s.seqProxy

end Submission

section Submit

variable [TxCodec]

def rawOf (txn : Transaction) : Option (List UInt8) :=
  let raw := TxCodec.getRawBytes txn
  if raw.length = 0 then TxCodec.serializeTransaction txn else some raw

def canonicalSubmission (txn : Transaction) (suppliedID : Hash256) (suppliedAccount : AccountID)
    : Option (Transaction × List UInt8 × Hash256 × AccountID) := do
  let raw ← rawOf txn
  let parsed ← TxCodec.parseFromBinary raw
  let id ← TxCodec.computeTransactionHash parsed
  let account ← parsed.account
  if suppliedAccount ≠ Vector.replicate 20 0 ∧ suppliedAccount ≠ account then
    none
  else if suppliedID ≠ Hash256.zero ∧ suppliedID ≠ id then
    none
  else
    some (parsed, raw, id, account)

def canonical (ctx : ApplyContext) (txn : Transaction) (txID : Hash256) (account : AccountID)
    : Except Result (Transaction × List UInt8 × Hash256 × AccountID) :=
  if ctx.isDryRun then
    .ok (txn, [], txID, account)
  else
    match canonicalSubmission txn txID account with
    | none => .error temMALFORMED
    | some canonical => .ok canonical

def sourceAccount (ctx : ApplyContext) (txn : Transaction) (account : AccountID)
    : Except Result AccountID :=
  if ctx.isDryRun then
    match txn.account with
    | none => .error temBAD_SRC_ACCOUNT
    | some account => .ok account
  else
    .ok account

def checkAccount (ctx : ApplyContext) (account : AccountID) : Except Result Unit :=
  match ctx.accountExists account with
  | none => .error tefINTERNAL
  | some false => .error (if ctx.isDryRun then telCAN_NOT_QUEUE else terNO_ACCOUNT)
  | some true => .ok ()

def submission (ctx : ApplyContext) (txn : Transaction) (txID : Hash256) (account : AccountID)
    : Except Result Submission := do
  let (txn, blob, txID, account) ← canonical ctx txn txID account
  let preflightResult := ctx.preflightTransactionWithFlags txn ctx.getApplyFlags
  if preflightResult ≠ tesSUCCESS then
    .error preflightResult
  else do
    let account ← sourceAccount ctx txn account
    checkAccount ctx account
    match ctx.getAccountSequence account with
    | none => .error tefINTERNAL
    | some acctSeq =>
      match txn.seqProxyFor with
      | none => .error tefINTERNAL
      | some seqProxy => .ok { txn, blob, txID, account, acctSeq, seqProxy }

end Submit

def computeFeeLevel (ctx : ApplyContext) (call : Nat) (txn : Transaction) : Except Result FeeLevel :=
  match ctx.getBaseFees call txn with
  | .error code => .error (code.getD tefEXCEPTION)
  | .ok (baseFee, defaultBaseFee) =>
    match txn.fee with
    | none => .error temBAD_FEE
    | some feePaid => .ok (toFeeLevelWithDefaultBaseFee feePaid baseFee defaultBaseFee)

namespace TxQ

def directApply (q : TxQ) (ctx : ApplyContext) (s : Submission) : ApplyResult × TxQ :=
  let (result, applied) := ctx.applyTransactionWithFlags s.txn ctx.getApplyFlags
  if applied then
    ({ result, applied := true, queued := false }, q.eraseAt s.account s.seqProxy)
  else
    (rejected result, q)

def accountQueue (q : TxQ) (s : Submission) : AccountQueue :=
  (q.byAccount.lookup s.account).getD (.newAccountQueue s.account)

def acctTxCount (q : TxQ) (s : Submission) : Nat :=
  (q.accountQueue s).relevantCount s.acctSeqProx

def firstRelevant (q : TxQ) (s : Submission) : Option Candidate :=
  (q.accountQueue s).firstRelevant s.acctSeqProx

def replacingCandidate (q : TxQ) (s : Submission) : Option Candidate :=
  (q.accountQueue s).transactions.lookup s.seqProxy

def getNextQueuableSeq (aq : AccountQueue) (acctSeq : UInt32) : UInt32 :=
  let acctSeqProx := SeqProxy.newSequence acctSeq
  let sequences := aq.sortedCandidates.filter fun c =>
    c.seqProxy.isTicket = false ∧ c.seqProxy.less acctSeqProx = false
  match sequences with
  | [] => acctSeq
  | first :: rest =>
    if first.seqProxy = acctSeqProx then
      walk first.consequences.followingSeq.value rest
    else
      acctSeq
where
  walk (attempt : UInt32) : List Candidate → UInt32
    | [] => attempt
    | c :: rest =>
      if attempt < c.seqProxy.value then attempt else walk c.consequences.followingSeq.value rest

structure Refusal where
  result : Result
  full : Bool

def refuse {α : Type} (result : Result) : Except Refusal α := .error { result, full := false }

def checkTicket (ctx : ApplyContext) (s : Submission) : Except Refusal Unit :=
  if s.seqProxy.isTicket then
    match ctx.ticketExists s.account s.seqProxy.value with
    | none => refuse tefINTERNAL
    | some true => .ok ()
    | some false => refuse (if s.seqProxy.value < s.acctSeq then tefNO_TICKET else terPRE_TICKET)
  else
    .ok ()

def checkBlocker (q : TxQ) (s : Submission) : Except Refusal Unit :=
  if s.consequences.isBlocker then
    if q.acctTxCount s > 1 then
      refuse telCAN_NOT_QUEUE_BLOCKS
    else if q.acctTxCount s = 1 ∧ (q.firstRelevant s).all (fun c => c.seqProxy ≠ s.seqProxy) then
      refuse telCAN_NOT_QUEUE_BLOCKS
    else
      .ok ()
  else
    .ok ()

def checkReplacement (q : TxQ) (s : Submission) (feeLevel : FeeLevel) : Except Refusal Unit :=
  if q.acctTxCount s = 1 ∧ (q.firstRelevant s).any (fun c =>
      c.consequences.isBlocker ∧ c.seqProxy ≠ s.seqProxy) then
    refuse telCAN_NOT_QUEUE_BLOCKED
  else if q.acctTxCount s > 0 ∧ (q.replacingCandidate s).any (fun c =>
      feeLevel ≤ mulDiv c.feeLevel (100 + q.config.retrySequencePercent.toUInt64) 100) then
    refuse telCAN_NOT_QUEUE_FEE
  else
    .ok ()

def canBeHeld (q : TxQ) (ctx : ApplyContext) (s : Submission) : Except Refusal Unit :=
  if s.txn.previousTxnID ∨ s.txn.accountTxnID ∨ ctx.getApplyFlags &&& tapFAIL_HARD ≠ 0 then
    refuse telCAN_NOT_QUEUE
  else if s.txn.body = .batch then
    refuse telCAN_NOT_QUEUE
  else if s.txn.delegate then
    refuse telCAN_NOT_QUEUE
  else if s.txn.sponsor ∧ s.txn.sponsorFlags.any (fun flags => flags &&& spfSponsorFee ≠ 0) then
    refuse telCAN_NOT_QUEUE
  else if s.txn.lastLedgerSequence.any (fun last =>
      last < ctx.getLedgerSequence + q.config.minimumLastLedgerBuffer) then
    refuse telCAN_NOT_QUEUE
  else
    let aq := q.accountQueue s
    if (q.byAccount.lookup s.account).isNone then
      .ok ()
    else if (q.replacingCandidate s).isSome
        ∨ UInt32.ofNat aq.count < q.config.maximumTxnPerAccount then
      .ok ()
    else if s.seqProxy.isTicket = false ∧ s.seqProxy.value = getNextQueuableSeq aq s.acctSeq
        ∧ (aq.upperBoundSeqProxy s.seqProxy).any (fun next => next.isTicket = false) then
      .ok ()
    else
      .error { result := telCAN_NOT_QUEUE_FULL, full := true }

def requiresMultiTxn (q : TxQ) (s : Submission) : Bool :=
  0 < q.acctTxCount s ∧ (1 < q.acctTxCount s ∨ (q.replacingCandidate s).isNone)

def checkSequence (q : TxQ) (s : Submission) : Except Refusal Unit :=
  if s.seqProxy.isTicket then
    .ok ()
  else if ((q.accountQueue s).prevTx s.seqProxy).all (fun prev => s.seqProxy.less prev.seqProxy) then
    if s.seqProxy.value < s.acctSeq then
      refuse tefPAST_SEQ
    else if s.seqProxy.value > s.acctSeq then
      refuse terPRE_SEQ
    else
      .ok ()
  else if (q.replacingCandidate s).isNone
      ∧ getNextQueuableSeq (q.accountQueue s) s.acctSeq ≠ s.seqProxy.value then
    refuse telCAN_NOT_QUEUE
  else
    .ok ()

def inFlight (s : Submission) : List Candidate → UInt64 × UInt64
  | [] => (0, 0)
  | c :: rest =>
    let (totalFee, potentialSpend) := inFlight s rest
    if c.seqProxy ≠ s.seqProxy then
      (totalFee + c.consequences.fee, potentialSpend + c.consequences.potentialSpend)
    else if rest.length > 0 then
      (totalFee + s.consequences.fee, potentialSpend + s.consequences.potentialSpend)
    else
      (totalFee, potentialSpend)

structure PreclaimView where
  balance : UInt64
  seq : UInt32

def multiTxnView (q : TxQ) (ctx : ApplyContext) (s : Submission) (balance : UInt64)
    : Except Refusal PreclaimView :=
  let aq := q.accountQueue s
  let (totalFee, potentialSpend) := inFlight s (aq.relevantSortedCandidates s.acctSeqProx)
  let reserve := ctx.getAccountReserve 0
  if totalFee ≥ balance ∨ (reserve > 10 * ctx.getReferenceFee ∧ totalFee ≥ reserve) then
    refuse telCAN_NOT_QUEUE_BALANCE
  else
    let spendableAboveReserve := min potentialSpend (balance - min reserve balance)
    let potentialTotalSpend := totalFee + spendableAboveReserve
    .ok {
      balance := if potentialTotalSpend ≤ balance then balance - potentialTotalSpend else 0
      seq := if s.seqProxy.isTicket then getNextQueuableSeq aq s.acctSeq else s.seqProxy.value }

def checkQueued (q : TxQ) (ctx : ApplyContext) (s : Submission) (balance : UInt64)
    : Except Refusal PreclaimView :=
  if q.acctTxCount s = 0 then
    if s.seqProxy.isTicket = false ∧ s.seqProxy.value ≠ s.acctSeq then
      refuse (if s.seqProxy.value < s.acctSeq then tefPAST_SEQ else terPRE_SEQ)
    else
      .ok { balance, seq := s.acctSeq }
  else if s.seqProxy.isTicket = false ∧ s.acctSeq > s.seqProxy.value then
    refuse tefPAST_SEQ
  else if q.requiresMultiTxn s then do
    q.canBeHeld ctx s
    q.checkSequence s
    q.multiTxnView ctx s balance
  else
    .ok { balance, seq := s.acctSeq }

def checkPreclaim (ctx : ApplyContext) (s : Submission) (view : PreclaimView) : Except Refusal Unit :=
  let result :=
    ctx.preclaimTransactionWithFlags s.txn s.account view.balance view.seq ctx.getApplyFlags
  if result ≠ tesSUCCESS ∧ (isTec result = false ∨ ctx.getApplyFlags &&& tapRETRY ≠ 0) then
    refuse result
  else
    .ok ()

def admission (q : TxQ) (ctx : ApplyContext) (s : Submission) : Except Refusal FeeLevel := do
  checkTicket ctx s
  q.checkBlocker s
  match computeFeeLevel ctx 1 s.txn with
  | .error result => refuse result
  | .ok feeLevel => do
    q.checkReplacement s feeLevel
    match ctx.getAccountBalance s.account with
    | none => refuse tefINTERNAL
    | some balance => do
      let view ← q.checkQueued ctx s balance
      checkPreclaim ctx s view
      return feeLevel

section Clear

def sandboxRun [TxCodec] (ctx : ApplyContext) (call : Nat)
    : List Candidate → List (Candidate × Result) × Bool
  | [] => ([], true)
  | c :: rest =>
    let (result, ok) := ctx.sandboxApply call c.candidateTransaction c.flags
    if result = tefNO_TICKET ∨ ok then
      let (updates, all) := sandboxRun ctx (call + 1) rest
      ((c, result) :: updates, all)
    else
      ([(c, result)], false)

def noteFailure (p : Progress) (result : Result) : Progress :=
  { p with
    retriesRemaining := if p.retriesRemaining > 0 then p.retriesRemaining - 1 else p.retriesRemaining
    lastResult := result }

def noteFailures (h : Heap) (updates : List (Candidate × Result)) : Heap :=
  updates.foldl (fun h (c, result) => h.update c (noteFailure · result)) h

def preceding (q : TxQ) (s : Submission) : List Candidate :=
  ((q.accountQueue s).relevantSortedCandidates s.acctSeqProx).takeWhile fun c =>
    c.seqProxy.less s.seqProxy

variable [TxCodec]

def tryClearAccountQueue (q : TxQ) (h : Heap) (ctx : ApplyContext) (s : Submission)
    (feeLevelPaid : FeeLevel) : Option ApplyResult × TxQ × Heap :=
  let preceding := q.preceding s
  if preceding.length = 0 then
    (none, q, h)
  else
    match escalatedSeriesFeeLevel q.feeMetrics.snapshot ctx.getTxInLedger 0
        (UInt32.ofNat preceding.length + 1) with
    | none => (none, q, h)
    | some required =>
      if preceding.foldl (fun paid c => paid + c.feeLevel) feeLevelPaid < required then
        (none, q, h)
      else if ctx.newSandbox = false then
        (none, q, h)
      else
        let (updates, all) := sandboxRun ctx 0 preceding
        let (result, ok) := ctx.sandboxApply preceding.length (some s.txn) ctx.getApplyFlags
        if all = false ∨ ok = false then
          (none, q, noteFailures h updates)
        else if ctx.sandboxCommit = false then
          (some (rejected tefINTERNAL), q, h)
        else
          let q := preceding.foldl erase q
          (some { result, applied := true, queued := false }, q.eraseAt s.account s.seqProxy, h)

def clearQueue (q : TxQ) (h : Heap) (ctx : ApplyContext) (s : Submission)
    (feeLevel requiredFeeLevel : FeeLevel) : Option ApplyResult × TxQ × Heap :=
  if s.seqProxy.isTicket = false ∧ q.requiresMultiTxn s ∧ feeLevel > requiredFeeLevel
      ∧ requiredFeeLevel > baseLevel
      ∧ (q.firstRelevant s).any (fun c => (h.progress c.addr).retriesRemaining = retriesAllowed) then
    q.tryClearAccountQueue h ctx s feeLevel
  else
    (none, q, h)

end Clear

def meanFeeLevel (count : FeeLevel) (sumDiv sumMod : FeeLevel) : List Candidate → FeeLevel
  | [] => sumDiv + sumMod / count
  | c :: rest =>
    let next := c.feeLevel / count
    let mod := c.feeLevel % count
    if sumDiv ≥ maxUint64 - next ∨ sumMod ≥ maxUint64 - mod then
      maxUint64
    else
      meanFeeLevel count (sumDiv + next) (sumMod + mod) rest

def endEffectiveFeeLevel (visit : List Candidate → List Candidate) (endAccount : AccountQueue)
    (lowestOther : Candidate) (feeLevel : FeeLevel) : FeeLevel :=
  if lowestOther.feeLevel ≤ feeLevel ∧ endAccount.count > 1 then
    meanFeeLevel (UInt64.ofNat endAccount.count) 0 0 (visit endAccount.candidates)
  else
    lowestOther.feeLevel

def lowestOther (q : TxQ) (account : AccountID) : Option Candidate :=
  q.byFee.reverse.find? fun c => c.account ≠ account

def makeRoom (visit : List Candidate → List Candidate) (q : TxQ) (s : Submission)
    (feeLevel : FeeLevel) : Option TxQ :=
  if (q.replacingCandidate s).isNone ∧ q.isFull then
    match q.lowestOther s.account with
    | none => none
    | some lowest =>
      match q.byAccount.lookup lowest.account with
      -- the source would dereference a nil pointer here
      | none => none
      | some endAccount =>
        if feeLevel > endEffectiveFeeLevel visit endAccount lowest feeLevel then
          some (endAccount.sortedCandidates.getLast?.elim q q.erase)
        else
          none
  else
    some q

def newCandidate (h : Heap) (ctx : ApplyContext) (s : Submission) (feeLevel : FeeLevel)
    : Candidate where
  addr := h.next
  txn := none
  blob := s.blob
  txID := s.txID
  account := s.account
  feeLevel := feeLevel
  seqProxy := s.seqProxy
  lastValid := s.lastValid
  flags := ctx.storedFlags
  consequences := s.consequences

def newProgress (ctx : ApplyContext) : Progress where
  retriesRemaining := retriesAllowed
  lastResult := 0
  preflightResult := tesSUCCESS
  preflightFlags := ctx.getApplyFlags
  preflightRules := ctx.rulesIdentity

def queueCandidate (visit : List Candidate → List Candidate) (q : TxQ) (h : Heap) (ctx : ApplyContext)
    (s : Submission) (feeLevel : FeeLevel) : ApplyResult × TxQ × Heap :=
  match q.makeRoom visit s feeLevel with
  | none => (rejected telCAN_NOT_QUEUE_FULL, q.incTxQFull, h)
  | some roomy =>
    let q := (q.replacingCandidate s).elim roomy roomy.erase
    let c := newCandidate h ctx s feeLevel
    ({ result := terQUEUED, applied := false, queued := true }, (q.addToAccount c).insertByFee c,
      h.alloc (newProgress ctx))

def refused (q : TxQ) (refusal : Refusal) : TxQ := if refusal.full then q.incTxQFull else q

variable [TxCodec]

def enqueue (visit : List Candidate → List Candidate) (q : TxQ) (h : Heap) (ctx : ApplyContext)
    (s : Submission) (requiredFeeLevel : FeeLevel) : ApplyResult × TxQ × Heap :=
  match q.admission ctx s with
  | .error refusal => (rejected refusal.result, q.refused refusal, h)
  | .ok feeLevel =>
    match q.clearQueue h ctx s feeLevel requiredFeeLevel with
    | (some result, q, h) => (result, q, h)
    | (none, q, h) =>
      match if q.requiresMultiTxn s then .ok () else q.canBeHeld ctx s with
      | .error refusal => (rejected refusal.result, q.refused refusal, h)
      | .ok () => queueCandidate visit q h ctx s feeLevel

def directFeeLevel (ctx : ApplyContext) (s : Submission) : Except Result (Option FeeLevel) :=
  if s.canDirectApply then (computeFeeLevel ctx 0 s.txn).map some else .ok none

def applySubmission (visit : List Candidate → List Candidate) (q : TxQ) (h : Heap)
    (ctx : ApplyContext) (s : Submission) : ApplyResult × TxQ × Heap :=
  let requiredFeeLevel := scaleFeeLevel q.feeMetrics.snapshot ctx.getTxInLedger
  match directFeeLevel ctx s with
  | .error result => (rejected result, q, h)
  | .ok feeLevel =>
    if feeLevel.any (requiredFeeLevel ≤ ·) then
      let (result, q) := q.directApply ctx s
      (result, q, h)
    else if ctx.isDryRun then
      (rejected telCAN_NOT_QUEUE, q, h)
    else
      enqueue visit q h ctx s requiredFeeLevel

def apply (visit : List Candidate → List Candidate) (q : TxQ) (h : Heap) (ctx : ApplyContext)
    (txn : Transaction) (txID : Hash256) (account : AccountID) : ApplyResult × TxQ × Heap :=
  match submission ctx txn txID account with
  | .error result => (rejected result, q, h)
  | .ok s => q.applySubmission visit h ctx s

end TxQ

end TxQueue
