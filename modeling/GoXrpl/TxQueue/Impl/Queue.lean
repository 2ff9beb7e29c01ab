import GoXrpl.Assoc.Basic
import GoXrpl.Engine.Impl.Config
import GoXrpl.Search.Insertion

/-!
This module contains the fee levels and the metrics they are computed from, the candidates of the
queue, and the queue with its three indices.
-/

namespace TxQueue

abbrev FeeLevel := UInt64

def maxUint64 : UInt64 := 0xffffffffffffffff

def baseLevel : UInt64 := 256

def mulDiv (a b c : UInt64) : UInt64 :=
  if c = 0 then
    maxUint64
  else
    let product := a.toNat * b.toNat
    if product / 2 ^ 64 ≥ c.toNat then maxUint64 else UInt64.ofNat (product / c.toNat)

def toFeeLevelWithDefaultBaseFee (drops baseFee defaultBaseFee : UInt64) : FeeLevel :=
  if baseFee = 0 then
    let modifier := if defaultBaseFee = 0 then 1 else defaultBaseFee
    mulDiv (drops + modifier) baseLevel modifier
  else
    mulDiv drops baseLevel baseFee

structure Config where
  ledgersInQueue : UInt32
  queueSizeMin : UInt32
  retrySequencePercent : UInt32
  minimumEscalationMultiplier : UInt64
  minimumTxnInLedger : UInt32
  minimumTxnInLedgerStandalone : UInt32
  targetTxnInLedger : UInt32
  maximumTxnInLedger : UInt32
  maximumTxnInLedgerSet : Bool
  normalConsensusIncreasePercent : UInt32
  slowConsensusDecreasePercent : UInt32
  maximumTxnPerAccount : UInt32
  minimumLastLedgerBuffer : UInt32
  standalone : Bool

def maxLedgersInQueue : UInt32 := 0x100000

namespace Config

def effectiveMin (c : Config) : UInt32 :=
  if c.standalone then c.minimumTxnInLedgerStandalone else c.minimumTxnInLedger

def normalizeMaximum (c : Config) : Option Config :=
  if c.maximumTxnInLedgerSet then
    if c.maximumTxnInLedger < c.minimumTxnInLedger then
      none
    else if c.maximumTxnInLedger < c.minimumTxnInLedgerStandalone then
      none
    else
      some { c with maximumTxnInLedger := max c.maximumTxnInLedger c.targetTxnInLedger }
  else
    some c

def normalize (c : Config) : Option Config :=
  if c.ledgersInQueue = 0 then
    none
  else if c.ledgersInQueue > maxLedgersInQueue then
    none
  else
    let c := { c with
      targetTxnInLedger := max c.targetTxnInLedger c.effectiveMin
      maximumTxnInLedgerSet := c.maximumTxnInLedgerSet || c.maximumTxnInLedger ≠ 0 }
    c.normalizeMaximum.map fun c => { c with
      normalConsensusIncreasePercent := min c.normalConsensusIncreasePercent 1000
      slowConsensusDecreasePercent := min c.slowConsensusDecreasePercent 100 }

end Config

structure FeeMetrics where
  minimumTxnCount : UInt64
  targetTxnCount : UInt64
  maximumTxnCount : UInt64
  hasMaximumTxnCount : Bool
  txnsExpected : UInt64
  recentTxnCounts : List UInt64
  recentIndex : Nat
  recentSize : Nat
  recentCapacity : Nat
  escalationMultiplier : UInt64

structure FeeMetricsSnapshot where
  txnsExpected : UInt64
  escalationMultiplier : UInt64

namespace FeeMetrics

def newFeeMetrics (cfg : Config) : FeeMetrics :=
  let minTxn := cfg.effectiveMin
  let targetTxn := max cfg.targetTxnInLedger minTxn
  let maxTxn :=
    if cfg.maximumTxnInLedger ≠ 0 ∧ cfg.maximumTxnInLedger < targetTxn then
      targetTxn
    else
      cfg.maximumTxnInLedger
  { minimumTxnCount := minTxn.toUInt64
    targetTxnCount := targetTxn.toUInt64
    maximumTxnCount := maxTxn.toUInt64
    hasMaximumTxnCount := cfg.maximumTxnInLedgerSet
    txnsExpected := minTxn.toUInt64
    recentTxnCounts := List.replicate cfg.ledgersInQueue.toNat 0
    recentIndex := 0
    recentSize := 0
    recentCapacity := cfg.ledgersInQueue.toNat
    escalationMultiplier := cfg.minimumEscalationMultiplier }

def snapshot (fm : FeeMetrics) : FeeMetricsSnapshot where
  txnsExpected := fm.txnsExpected
  escalationMultiplier := fm.escalationMultiplier

def addRecentCount (fm : FeeMetrics) (count : UInt64) : FeeMetrics :=
  if fm.recentCapacity = 0 then
    fm
  else
    { fm with
      recentTxnCounts := fm.recentTxnCounts.set fm.recentIndex count
      recentIndex := (fm.recentIndex + 1) % fm.recentCapacity
      recentSize := if fm.recentSize < fm.recentCapacity then fm.recentSize + 1 else fm.recentSize }

def maxRecentCount (fm : FeeMetrics) : UInt64 :=
  (fm.recentTxnCounts.take fm.recentSize).foldl max 0

def medianOf (sorted : List FeeLevel) : UInt64 :=
  ((sorted[sorted.length / 2]?).getD 0 + (sorted[(sorted.length - 1) / 2]?).getD 0 + 1) / 2

def updateExpected (fm : FeeMetrics) (size : UInt64) (timeLeap : Bool) (cfg : Config) : FeeMetrics :=
  if timeLeap then
    let cutPct := (100 - cfg.slowConsensusDecreasePercent).toUInt64
    let upperLimit := max (mulDiv fm.txnsExpected cutPct 100) fm.minimumTxnCount
    { fm with
      txnsExpected := min (max (mulDiv size cutPct 100) fm.minimumTxnCount) upperLimit
      recentSize := 0
      recentIndex := 0 }
  else if size > fm.txnsExpected ∨ size > fm.targetTxnCount then
    let increased := mulDiv size (100 + cfg.normalConsensusIncreasePercent.toUInt64) 100
    let fm := fm.addRecentCount increased
    let maxRecent := fm.maxRecentCount
    let next :=
      if maxRecent ≥ fm.txnsExpected then maxRecent else (fm.txnsExpected * 9 + maxRecent) / 10
    { fm with
      txnsExpected :=
        if fm.hasMaximumTxnCount ∧ next > fm.maximumTxnCount then fm.maximumTxnCount else next }
  else
    fm

def update (fm : FeeMetrics) (feeLevels : List FeeLevel) (size : UInt64) (timeLeap : Bool)
    (cfg : Config) : FeeMetrics :=
  let sorted := feeLevels.mergeSort fun a b => a ≤ b
  { fm.updateExpected size timeLeap cfg with
    escalationMultiplier :=
      if sorted.length = 0 then
        cfg.minimumEscalationMultiplier
      else
        max (medianOf sorted) cfg.minimumEscalationMultiplier }

end FeeMetrics

def scaleFeeLevel (snapshot : FeeMetricsSnapshot) (txInLedger : UInt32) : FeeLevel :=
  if txInLedger.toUInt64 ≤ snapshot.txnsExpected then
    baseLevel
  else
    let current := txInLedger.toUInt64
    let target := snapshot.txnsExpected
    mulDiv snapshot.escalationMultiplier (current * current) (target * target)

def sumOfSquares (x : UInt64) : Option UInt64 :=
  if x ≥ 0x200000 then none else some (x * (x + 1) * (2 * x + 1) / 6)

def escalatedSeriesFeeLevel (snapshot : FeeMetricsSnapshot) (txInLedger extraCount seriesSize : UInt32)
    : Option FeeLevel :=
  let current := txInLedger.toUInt64 + extraCount.toUInt64
  let last := current + seriesSize.toUInt64 - 1
  let target := snapshot.txnsExpected
  match sumOfSquares last, sumOfSquares (current - 1) with
  | some sumLast, some sumCurrent =>
    some (mulDiv snapshot.escalationMultiplier (sumLast - sumCurrent) (target * target))
  | _, _ => none

open State (AccountID)
open Engine (Result)

namespace Ter

open Engine.Ter

def telCAN_NOT_QUEUE : Result := -392
def telCAN_NOT_QUEUE_BALANCE : Result := -391
def telCAN_NOT_QUEUE_BLOCKS : Result := -390
def telCAN_NOT_QUEUE_BLOCKED : Result := -389
def telCAN_NOT_QUEUE_FEE : Result := -388
def telCAN_NOT_QUEUE_FULL : Result := -387
def temMALFORMED : Result := -299
def temBAD_FEE : Result := -295
def temBAD_SRC_ACCOUNT : Result := -281
def tefPAST_SEQ : Result := -190
def tefNO_TICKET : Result := -180
def terPRE_SEQ : Result := -92
def terQUEUED : Result := -89
def terPRE_TICKET : Result := -88

def isTef (r : Result) : Bool := r ≥ -199 ∧ r ≤ -100
def isTem (r : Result) : Bool := r ≥ -299 ∧ r ≤ -200

end Ter

abbrev ApplyFlags := UInt32

def tapFAIL_HARD : ApplyFlags := 0x10
def tapRETRY : ApplyFlags := 0x20
def tapDRY_RUN : ApplyFlags := 0x1000

structure SeqProxy where
  value : UInt32
  isTicket : Bool
  deriving DecidableEq

namespace SeqProxy

def newSequence (seq : UInt32) : SeqProxy := { value := seq, isTicket := false }

def newTicket (ticket : UInt32) : SeqProxy := { value := ticket, isTicket := true }

def less (s other : SeqProxy) : Bool :=
  if s.isTicket = false ∧ other.isTicket then
    true
  else if s.isTicket ∧ other.isTicket = false then
    false
  else
    s.value < other.value

end SeqProxy

abbrev Amount := Option Int

inductive Body where
  | payment (amount : Amount) (sendMax : Option Amount)
  | offerCreate (takerGets : Amount)
  | escrowCreate (amount : Amount)
  | paymentChannelCreate (amount : Amount)
  | paymentChannelFund (amount : Amount)
  | xChainCommit (amount : Amount)
  | sponsorshipSet (feeAmountDelta : Option Amount)
  | ticketCreate (ticketCount : UInt32)
  | accountSet (setFlag clearFlag : Option UInt32)
  | regularKeySet
  | signerListSet
  | accountDelete
  | xChainClaim
  | xChainAddClaimAttestation
  | xChainAddAccountCreateAttest
  | batch
  | other
  deriving DecidableEq

/--
`account` and `fee` are the fields as `DecodeAccountID` and `ParseUint` read them.
-/
structure Transaction where
  account : Option AccountID
  fee : Option UInt64
  sequence : Option UInt32
  ticketSequence : Option UInt32
  lastLedgerSequence : Option UInt32
  flags : Option UInt32
  previousTxnID : Bool
  accountTxnID : Bool
  delegate : Bool
  sponsor : Bool
  sponsorFlags : Option UInt32
  body : Body
  deriving DecidableEq

def spfSponsorFee : UInt32 := 1

def accountSetTxFlagRequireAuth : UInt32 := 0x00040000
def accountSetTxFlagOptionalAuth : UInt32 := 0x00080000

namespace Transaction

def seqProxyFor (txn : Transaction) : Option SeqProxy :=
  match txn.sequence, txn.ticketSequence with
  | none, none => none
  | some seq, ticket =>
    if seq ≠ 0 then
      some (.newSequence seq)
    else
      some (ticket.elim (.newSequence 0) .newTicket)
  | none, some ticket => some (.newTicket ticket)

-- asfRequireAuth, asfDisableMaster and asfAccountTxnID
def isAuthFlag (flag : UInt32) : Bool := flag = 2 ∨ flag = 4 ∨ flag = 5

def isBlocker (txn : Transaction) : Bool :=
  match txn.body with
  | .regularKeySet | .signerListSet | .accountDelete | .xChainClaim
  | .xChainAddClaimAttestation | .xChainAddAccountCreateAttest => true
  | .accountSet setFlag clearFlag =>
    txn.flags.any (fun flags =>
        flags &&& (accountSetTxFlagRequireAuth ||| accountSetTxFlagOptionalAuth) ≠ 0)
      || setFlag.any isAuthFlag || clearFlag.any isAuthFlag
  | _ => false

def nativeDrops (amount : Amount) : UInt64 := UInt64.ofInt (amount.getD 0)

def potentialSpend (txn : Transaction) : UInt64 :=
  match txn.body with
  | .payment amount sendMax => nativeDrops (sendMax.getD amount)
  | .offerCreate takerGets => nativeDrops takerGets
  | .escrowCreate amount => nativeDrops amount
  | .paymentChannelCreate amount => nativeDrops amount
  | .paymentChannelFund amount => nativeDrops amount
  | .xChainCommit amount => nativeDrops amount
  | .sponsorshipSet (some (some delta)) => if 0 < delta then nativeDrops (some delta) else 0
  | _ => 0

end Transaction

structure TxConsequences where
  fee : UInt64
  potentialSpend : UInt64
  isBlocker : Bool
  followingSeq : SeqProxy
  deriving DecidableEq

def followingSeq (txn : Transaction) (seqProxy : SeqProxy) : SeqProxy :=
  if seqProxy.isTicket then
    seqProxy
  else
    match txn.body with
    | .ticketCreate count => .newSequence (seqProxy.value + if count > 0 then count else 1)
    | _ => .newSequence (seqProxy.value + 1)

def computeConsequences (txn : Transaction) (seqProxy : SeqProxy) : TxConsequences where
  fee := txn.fee.getD 0
  potentialSpend := txn.potentialSpend
  isBlocker := txn.isBlocker
  followingSeq := followingSeq txn seqProxy

class TxCodec where
  getRawBytes : Transaction → List UInt8
  serializeTransaction : Transaction → Option (List UInt8)
  parseFromBinary : List UInt8 → Option Transaction
  computeTransactionHash : Transaction → Option Hash256

def retriesAllowed : Int := 10

/--
A pointer to a candidate, with the fields that nothing assigns to once it is in the queue. Two
pointers are equal where their addresses are.
-/
structure Candidate where
  addr : Nat
  txn : Option Transaction
  blob : List UInt8
  txID : Hash256
  account : AccountID
  feeLevel : FeeLevel
  seqProxy : SeqProxy
  lastValid : UInt32
  flags : ApplyFlags
  consequences : TxConsequences
  deriving DecidableEq

structure Progress where
  retriesRemaining : Int
  lastResult : Result
  preflightResult : Result
  preflightFlags : ApplyFlags
  preflightRules : Nat

structure Heap where
  next : Nat
  progress : Nat → Progress

namespace Heap

def alloc (h : Heap) (p : Progress) : Heap where
  next := h.next + 1
  progress := fun addr => if addr = h.next then p else h.progress addr

def update (h : Heap) (c : Candidate) (f : Progress → Progress) : Heap :=
  { h with progress := fun addr => if addr = c.addr then f (h.progress addr) else h.progress addr }

end Heap

namespace Candidate

def same (c d : Candidate) : Bool := c.addr = d.addr

variable [TxCodec]

def candidateTransaction (c : Candidate) : Option Transaction :=
  if c.blob.length ≥ 32 then
    (TxCodec.parseFromBinary c.blob).orElse fun _ => c.txn
  else
    c.txn

end Candidate

structure AccountQueue where
  account : AccountID
  transactions : AList fun _ : SeqProxy => Candidate
  retryPenalty : Bool
  dropPenalty : Bool

namespace AccountQueue

def newAccountQueue (account : AccountID) : AccountQueue where
  account := account
  transactions := ∅
  retryPenalty := false
  dropPenalty := false

def add (aq : AccountQueue) (c : Candidate) : AccountQueue :=
  { aq with transactions := aq.transactions.insert c.seqProxy c }

def removeCandidate (aq : AccountQueue) (c : Candidate) : AccountQueue :=
  { aq with transactions := Assoc.eraseWhen (·.same c) c.seqProxy aq.transactions }

def candidates (aq : AccountQueue) : List Candidate := aq.transactions.entries.map (·.2)

def count (aq : AccountQueue) : Nat := aq.transactions.entries.length

def empty (aq : AccountQueue) : Bool := aq.count = 0

abbrev Entry := Sigma fun _ : SeqProxy => Candidate

-- The iterations keep the best entry so far.
def best (better : Entry → Candidate → Bool) (entries : List Entry) : Option Candidate :=
  entries.foldl (fun found e => if found.all (better e) then some e.2 else found) none

def prevTx (aq : AccountQueue) (seqProxy : SeqProxy) : Option Candidate :=
  best (fun e prev => prev.seqProxy.less e.1)
    (aq.transactions.entries.filter fun e => e.1.less seqProxy)

def getNextTx (aq : AccountQueue) (seqProxy : SeqProxy) : Option Candidate :=
  best (fun e next => e.1.less next.seqProxy)
    (aq.transactions.entries.filter fun e => seqProxy.less e.1)

def firstSeqTx (aq : AccountQueue) : Option Candidate :=
  best (fun e first => e.2.seqProxy.value < first.seqProxy.value)
    (aq.transactions.entries.filter fun e => e.2.seqProxy.isTicket = false)

def relevant (aq : AccountQueue) (acctSeqProx : SeqProxy) : List Entry :=
  aq.transactions.entries.filter fun e => e.1.less acctSeqProx = false

def relevantCount (aq : AccountQueue) (acctSeqProx : SeqProxy) : Nat :=
  (aq.relevant acctSeqProx).length

def firstRelevant (aq : AccountQueue) (acctSeqProx : SeqProxy) : Option Candidate :=
  best (fun e first => e.1.less first.seqProxy) (aq.relevant acctSeqProx)

def upperBoundSeqProxy (aq : AccountQueue) (sp : SeqProxy) : Option SeqProxy :=
  (aq.transactions.entries.filter fun e => sp.less e.1).foldl
    (fun found e => if found.all e.1.less then some e.1 else found) none

def sortedCandidates (aq : AccountQueue) : List Candidate :=
  aq.candidates.mergeSort fun a b => b.seqProxy.less a.seqProxy = false

def relevantSortedCandidates (aq : AccountQueue) (acctSeqProx : SeqProxy) : List Candidate :=
  aq.sortedCandidates.filter fun c => c.seqProxy.less acctSeqProx = false

end AccountQueue

structure TxQ where
  config : Config
  feeMetrics : FeeMetrics
  byFee : List Candidate
  byID : AList fun _ : Hash256 => Candidate
  byAccount : AList fun _ : AccountID => AccountQueue
  maxSize : Option UInt64
  parentHash : Hash256
  txqFull : UInt64

def xorHash (a b : Hash256) : Hash256 := Vector.ofFn fun i => a[i] ^^^ b[i]

def candidateLess (parentHash : Hash256) (a b : Candidate) : Bool :=
  if a.feeLevel ≠ b.feeLevel then
    a.feeLevel > b.feeLevel
  else
    xorHash a.txID parentHash < xorHash b.txID parentHash

def lessByAccount (a b : AccountID) : Bool := a < b

namespace TxQ

def new (config : Config) : Option TxQ :=
  config.normalize.map fun effective =>
    { config := effective
      feeMetrics := FeeMetrics.newFeeMetrics effective
      byFee := []
      byID := ∅
      byAccount := ∅
      maxSize := none
      parentHash := Hash256.zero
      txqFull := 0 }

def incTxQFull (q : TxQ) : TxQ := { q with txqFull := q.txqFull + 1 }

-- A queue has less than 2^64 candidates, so that the conversion of the length is exact.
def isFull (q : TxQ) : Bool := q.maxSize.any fun maxSize => maxSize.toNat ≤ q.byFee.length

def isFullPct (q : TxQ) (fillPct : UInt32) : Bool :=
  match q.maxSize with
  | none => false
  | some maxSize =>
    if fillPct = 0 then
      true
    else if fillPct ≥ 100 then
      maxSize.toNat ≤ q.byFee.length
    else
      let threshold := maxSize / 100 * fillPct.toUInt64 + maxSize % 100 * fillPct.toUInt64 / 100
      threshold.toNat ≤ q.byFee.length

def findInsertPosition (q : TxQ) (c : Candidate) : Nat :=
  Search.insertPosition (candidateLess q.parentHash) c q.byFee

def insertByFee (q : TxQ) (c : Candidate) : TxQ :=
  let pos := q.findInsertPosition c
  { q with
    byFee := q.byFee.take pos ++ c :: q.byFee.drop pos
    byID := q.byID.insert c.txID c }

def dropID (byID : AList fun _ : Hash256 => Candidate) (c : Candidate)
    : AList fun _ : Hash256 => Candidate :=
  Assoc.eraseWhen (·.same c) c.txID byID

def removeByFee (q : TxQ) (c : Candidate) : TxQ :=
  if q.byFee.any (·.same c) then
    { q with byFee := q.byFee.eraseP (·.same c), byID := dropID q.byID c }
  else
    q

def updateAccount (q : TxQ) (account : AccountID) (f : AccountQueue → AccountQueue) : TxQ :=
  match q.byAccount.lookup account with
  | none => q
  | some aq => { q with byAccount := q.byAccount.insert account (f aq) }

def erase (q : TxQ) (c : Candidate) : TxQ :=
  let q := (q.removeByFee c).updateAccount c.account (·.removeCandidate c)
  { q with byID := dropID q.byID c }

def eraseAt (q : TxQ) (account : AccountID) (seqProxy : SeqProxy) : TxQ :=
  match (q.byAccount.lookup account).bind (·.transactions.lookup seqProxy) with
  | none => q
  | some c => q.erase c

def inAccountOrder (q : TxQ) : List Candidate :=
  (q.byAccount.entries.mergeSort fun a b => lessByAccount b.1 a.1 = false).flatMap
    (·.2.sortedCandidates)

def rebuildByFee (q : TxQ) : TxQ :=
  q.inAccountOrder.foldl insertByFee { q with byFee := [], byID := ∅ }

def addToAccount (q : TxQ) (c : Candidate) : TxQ :=
  let aq := (q.byAccount.lookup c.account).getD (.newAccountQueue c.account)
  { q with byAccount := q.byAccount.insert c.account (aq.add c) }

section Fields

variable (q : TxQ) (account : AccountID) (f : AccountQueue → AccountQueue) (c : Candidate)

@[simp]
theorem byFee_updateAccount : (q.updateAccount account f).byFee = q.byFee := by
  unfold updateAccount
  split
  . rfl
  . rfl

@[simp]
theorem byID_updateAccount : (q.updateAccount account f).byID = q.byID := by
  unfold updateAccount
  split
  . rfl
  . rfl

@[simp]
theorem parentHash_updateAccount : (q.updateAccount account f).parentHash = q.parentHash := by
  unfold updateAccount
  split
  . rfl
  . rfl

@[simp]
theorem byFee_erase : (q.erase c).byFee = (q.removeByFee c).byFee :=
  byFee_updateAccount _ _ _

@[simp]
theorem byID_erase : (q.erase c).byID = dropID (q.removeByFee c).byID c := by
  show dropID ((q.removeByFee c).updateAccount _ _).byID c = _
  rw [byID_updateAccount]

@[simp]
theorem parentHash_erase : (q.erase c).parentHash = q.parentHash := by
  show ((q.removeByFee c).updateAccount _ _).parentHash = _
  rw [parentHash_updateAccount]
  unfold removeByFee
  split
  . rfl
  . rfl

end Fields

end TxQ

end TxQueue
