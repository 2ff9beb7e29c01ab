import GoXrpl.TxQueue.Impl.Apply

/-!
This module contains what happens to the queue between two ledgers: candidates go into the new open
ledger, the closed one ends others, and a copy of the queue is taken for a private preparation.
-/

open List

namespace TxQueue

open State (AccountID)
open Engine (Result)
open Engine.Ter
open Ter

structure AcceptContext where
  getTxInLedger : Nat → UInt32
  applyTransactionWithFlags : Nat → Option Transaction → ApplyFlags → Result × Bool
  preflightTransactionWithFlags : Nat → Option Transaction → ApplyFlags → Result
  rulesIdentity : Nat → Nat
  getParentHash : Hash256

structure ClosedLedgerContext where
  getLedgerSequence : UInt32
  getTransactionCount : UInt32
  getTransactionFeeLevels : List FeeLevel

namespace TxQ

section Accept

def eraseAndAdvance (q : TxQ) (idx : Nat) (c : Candidate) : TxQ × Nat :=
  match q.byAccount.lookup c.account with
  | none => (q.removeByFee c, idx)
  | some aq =>
    let erased := q.erase c
    match aq.getNextTx c.seqProxy with
    | none => (erased, idx)
    | some next =>
      if (q.byFee[idx + 1]?).all (fun feeNext => candidateLess q.parentHash next feeNext) then
        (erased, (erased.byFee.findIdx? (·.same next)).getD idx)
      else
        (erased, idx)

def dropLastForAccount (q : TxQ) (aq : AccountQueue) (current : Candidate) (idx : Nat) : TxQ × Nat :=
  match aq.sortedCandidates.getLast? with
  | none => (q, idx)
  | some dropTarget =>
    if dropTarget.same current then
      (q, idx)
    else
      let dropIdx := q.byFee.findIdx? (·.same dropTarget)
      (q.erase dropTarget, if dropIdx.any (· < idx) then idx - 1 else idx)

/--
A candidate about which a turn of `accept` asked the ledger, with the queue in which it did.
-/
structure Attempt where
  q : TxQ
  turn : Nat
  candidate : Candidate

structure Accepting where
  q : TxQ
  h : Heap
  i : Nat
  turn : Nat
  ledgerChanged : Bool
  attempts : List Attempt

namespace Accepting

def skip (s : Accepting) : Accepting := { s with i := s.i + 1, turn := s.turn + 1 }

def removed (s : Accepting) (c : Candidate) : Accepting :=
  let (q, i) := s.q.eraseAndAdvance s.i c
  { s with q, i, turn := s.turn + 1 }

end Accepting

variable [TxCodec]

def preflightAgain (ctx : AcceptContext) (turn : Nat) (c : Candidate) (p : Progress)
    : Progress × Option Result :=
  let rules := ctx.rulesIdentity turn
  if p.preflightResult ≠ tesSUCCESS ∨ p.preflightFlags ≠ c.flags ∨ p.preflightRules ≠ rules then
    let preflight := ctx.preflightTransactionWithFlags turn c.candidateTransaction c.flags
    ({ p with preflightResult := preflight, preflightFlags := c.flags, preflightRules := rules },
      if preflight ≠ tesSUCCESS then some preflight else none)
  else
    (p, none)

def attempt (ctx : AcceptContext) (turn : Nat) (c : Candidate) (failure : Option Result)
    : Result × Bool :=
  match failure with
  | some result => (result, false)
  | none => ctx.applyTransactionWithFlags turn c.candidateTransaction c.flags

def penalize (retries : Int) (aq : AccountQueue) : AccountQueue :=
  if retries ≤ 0 then { aq with retryPenalty := true } else { aq with dropPenalty := true }

def retryAgain (aq : AccountQueue) (p : Progress) : Progress :=
  { p with
    retriesRemaining :=
      if aq.retryPenalty ∧ p.retriesRemaining > 2 then 1 else p.retriesRemaining - 1 }

def failed (s : Accepting) (aq : AccountQueue) (c : Candidate) (result : Result) : Accepting :=
  let h := s.h.update c fun p => { p with lastResult := result }
  let retries := (h.progress c.addr).retriesRemaining
  if isTef result ∨ isTem result ∨ retries ≤ 0 then
    Accepting.removed { s with q := s.q.updateAccount c.account (penalize retries), h } c
  else
    let s := { s with h := h.update c (retryAgain aq) }
    if aq.dropPenalty ∧ aq.count > 1 ∧ s.q.isFullPct 95 then
      if c.seqProxy.isTicket then
        s.removed c
      else
        let (q, i) := s.q.dropLastForAccount aq c s.i
        Accepting.skip { s with q, i }
    else
      s.skip

def acceptTurn (ctx : AcceptContext) (snapshot : FeeMetricsSnapshot) (s : Accepting) (c : Candidate)
    : Option Accepting :=
  match s.q.byAccount.lookup c.account with
  | none => some { s with q := s.q.erase c, turn := s.turn + 1 }
  | some aq =>
    if c.seqProxy.isTicket = false
        ∧ aq.firstSeqTx.any (fun first => c.seqProxy.value > first.seqProxy.value) then
      some s.skip
    else if c.feeLevel < scaleFeeLevel snapshot (ctx.getTxInLedger s.turn) then
      none
    else
      let (p, failure) := preflightAgain ctx s.turn c (s.h.progress c.addr)
      let (result, applied) := attempt ctx s.turn c failure
      let s := { s with h := s.h.update c fun _ => p, attempts := s.attempts ++ [⟨s.q, s.turn, c⟩] }
      if applied then
        some { s.removed c with ledgerChanged := true }
      else
        some (failed s aq c result)

def Accepting.Advances (s s' : Accepting) : Prop :=
  s'.q.byFee.length < s.q.byFee.length
    ∨ (s'.q.byFee.length = s.q.byFee.length ∧ s'.i = s.i + 1)

section Termination

omit [TxCodec]

variable {q : TxQ}

theorem length_removeByFee_lt (h : q.byFee.any (·.same c) = true)
    : (q.removeByFee c).byFee.length < q.byFee.length := by
  unfold removeByFee
  rw [if_pos h]
  dsimp only
  rw [any_eq_true] at h
  obtain ⟨d, hmem, hd⟩ := h
  have hlength : (q.byFee.eraseP (·.same c)).length = q.byFee.length - 1 :=
    length_eraseP_of_mem hmem hd
  have hpos := length_pos_of_mem hmem
  omega

theorem any_same_of_mem (h : c ∈ q.byFee) : q.byFee.any (·.same c) = true := by
  rw [any_eq_true]
  exact ⟨c, h, decide_eq_true rfl⟩

theorem length_eraseAndAdvance_lt (h : c ∈ q.byFee)
    : (q.eraseAndAdvance idx c).1.byFee.length < q.byFee.length := by
  have hremoved := length_removeByFee_lt (any_same_of_mem h)
  have herased : (q.erase c).byFee.length < q.byFee.length := by
    rw [byFee_erase]
    exact hremoved
  unfold eraseAndAdvance
  split
  . exact hremoved
  dsimp only
  split
  . exact herased
  split
  . exact herased
  . exact herased

theorem dropLastForAccount_cases (q : TxQ) (aq : AccountQueue) (current : Candidate) (idx : Nat)
    : (q.dropLastForAccount aq current idx).1.byFee.length < q.byFee.length
      ∨ ((q.dropLastForAccount aq current idx).1.byFee.length = q.byFee.length
        ∧ (q.dropLastForAccount aq current idx).2 = idx) := by
  unfold dropLastForAccount
  split
  . exact .inr ⟨rfl, rfl⟩
  . next dropTarget _ =>
    split
    . exact .inr ⟨rfl, rfl⟩
    dsimp only
    rw [byFee_erase]
    by_cases hany : q.byFee.any (·.same dropTarget) = true
    . exact .inl (length_removeByFee_lt hany)
    right
    have hnone : q.byFee.findIdx? (·.same dropTarget) = none := by
      rw [findIdx?_eq_none_iff]
      intro d hd
      rw [← Bool.not_eq_true]
      intro hsame
      exact hany (any_eq_true.mpr ⟨d, hd, hsame⟩)
    unfold removeByFee
    rw [if_neg hany, hnone]
    exact ⟨rfl, rfl⟩

structure Touches (c : Candidate) (h h' : Heap) : Prop where
  next : h'.next = h.next
  others : ∀ addr, addr ≠ c.addr → h'.progress addr = h.progress addr

theorem Touches.update (htouches : Touches c h h') (f : Progress → Progress)
    : Touches c h (h'.update c f) where
  next := htouches.next
  others addr hne := (if_neg hne).trans (htouches.others addr hne)

structure Spends (s : Accepting) (c : Candidate) (h : Heap) : Prop extends Touches c s.h h where
  left : 0 ≤ (h.progress c.addr).retriesRemaining
  less : (h.progress c.addr).retriesRemaining < (s.h.progress c.addr).retriesRemaining

structure Allowed (ctx : AcceptContext) (snapshot : FeeMetricsSnapshot) (s : Accepting) (c : Candidate)
    (aq : AccountQueue) : Prop where
  account : s.q.byAccount.lookup c.account = some aq
  first : ¬ (c.seqProxy.isTicket = false
    ∧ aq.firstSeqTx.any (fun first => c.seqProxy.value > first.seqProxy.value))
  fee : ¬ c.feeLevel < scaleFeeLevel snapshot (ctx.getTxInLedger s.turn)

inductive Passed (s : Accepting) (c : Candidate) (s' : Accepting) : Prop
  | erased (hq : s'.q = s.q.erase c)
  | skipped (hq : s'.q = s.q) (hi : s'.i = s.i + 1)

inductive Tried (s : Accepting) (c : Candidate) (aq : AccountQueue) (s' : Accepting) : Prop
  | removed {q : TxQ} (hq : q = s.q ∨ ∃ retries, q = s.q.updateAccount c.account (penalize retries))
      (hq' : s'.q = (q.eraseAndAdvance s.i c).1) (hh : Touches c s.h s'.h)
  | kept (hq : s'.q = s.q) (hi : s'.i = s.i + 1) (hh : Spends s c s'.h)
  | dropped (hq : s'.q = (s.q.dropLastForAccount aq c s.i).1)
      (hi : s'.i = (s.q.dropLastForAccount aq c s.i).2 + 1) (hh : Spends s c s'.h)

inductive Turn (ctx : AcceptContext) (snapshot : FeeMetricsSnapshot) (s : Accepting) (c : Candidate)
    (s' : Accepting) : Prop
  | passed (hlog : s'.attempts = s.attempts) (hh : s'.h = s.h) (h : Passed s c s')
  | tried {aq : AccountQueue} (hlog : s'.attempts = s.attempts ++ [⟨s.q, s.turn, c⟩])
      (hallowed : Allowed ctx snapshot s c aq) (h : Tried s c aq s')

theorem Heap.progress_update (h : Heap) (c : Candidate) (f : Progress → Progress)
    : (h.update c f).progress c.addr = f (h.progress c.addr) :=
  if_pos rfl

theorem tried_failed (htouches : Touches c s.h h)
    (hretries : (h.progress c.addr).retriesRemaining = (s.h.progress c.addr).retriesRemaining)
    (aq : AccountQueue) (attempts : List Attempt) (result : Result)
    : (failed { s with h, attempts } aq c result).attempts = attempts
      ∧ Tried s c aq (failed { s with h, attempts } aq c result) := by
  have hnoted := htouches.update fun p => { p with lastResult := result }
  unfold failed
  dsimp only
  rw [Heap.progress_update]
  dsimp only
  split
  . exact ⟨rfl, .removed (.inr ⟨_, rfl⟩) rfl hnoted⟩
  . next hretry =>
    have hspends : Spends s c
        ((h.update c fun p => { p with lastResult := result }).update c (retryAgain aq)) := by
      refine ⟨hnoted.update _, ?_, ?_⟩
      all_goals
        rw [Heap.progress_update, Heap.progress_update]
        unfold retryAgain
        dsimp only
        split
        . omega
        . omega
    split
    . split
      . exact ⟨rfl, .removed (.inl rfl) rfl hspends.toTouches⟩
      . exact ⟨rfl, .dropped rfl rfl hspends⟩
    . exact ⟨rfl, .kept rfl rfl hspends⟩

theorem retriesRemaining_preflightAgain [TxCodec] (ctx : AcceptContext) (turn : Nat) (c : Candidate)
    (p : Progress)
    : (preflightAgain ctx turn c p).1.retriesRemaining = p.retriesRemaining := by
  unfold preflightAgain
  dsimp only
  split
  . rfl
  . rfl

theorem turn_acceptTurn [TxCodec] (hturn : acceptTurn ctx snapshot s c = some s')
    : Turn ctx snapshot s c s' := by
  unfold acceptTurn at hturn
  split at hturn
  . cases hturn
    exact .passed rfl rfl (.erased rfl)
  . next aq haq =>
    split at hturn
    . cases hturn
      exact .passed rfl rfl (.skipped rfl rfl)
    . next hfirst =>
      split at hturn
      . cases hturn
      . next hfee =>
        dsimp only at hturn
        generalize hchecked : s.h.update c _ = checked at hturn
        have htouches : Touches c s.h checked := by
          rw [← hchecked]
          exact ⟨rfl, fun addr hne => if_neg hne⟩
        split at hturn
        . cases hturn
          exact .tried rfl ⟨haq, hfirst, hfee⟩ (.removed (.inl rfl) rfl htouches)
        cases hturn
        obtain ⟨hlog, htried⟩ := tried_failed htouches
          (by rw [← hchecked, Heap.progress_update, retriesRemaining_preflightAgain]) aq
          (s.attempts ++ [⟨s.q, s.turn, c⟩]) _
        exact .tried hlog ⟨haq, hfirst, hfee⟩ htried

theorem advances_acceptTurn [TxCodec]
    (h : c ∈ s.q.byFee) (hturn : acceptTurn ctx snapshot s c = some s')
    : s.Advances s' := by
  unfold Accepting.Advances
  cases turn_acceptTurn hturn with
  | passed _ _ hpassed =>
    cases hpassed with
    | erased hq =>
      left
      rw [hq, byFee_erase]
      exact length_removeByFee_lt (any_same_of_mem h)
    | skipped hq hi =>
      rw [hq]
      exact .inr ⟨rfl, hi⟩
  | @tried aq _ _ htried =>
    cases htried with
    | @removed q hq hq' _ =>
      left
      have hbyFee : q.byFee = s.q.byFee := by
        rcases hq with rfl | ⟨retries, rfl⟩
        . rfl
        . exact byFee_updateAccount _ _ _
      rw [hq', ← hbyFee]
      rw [← hbyFee] at h
      exact length_eraseAndAdvance_lt h
    | kept hq hi _ =>
      rw [hq]
      exact .inr ⟨rfl, hi⟩
    | dropped hq hi _ =>
      rw [hq, hi]
      rcases dropLastForAccount_cases s.q aq c s.i with hlt | ⟨hlength, hidx⟩
      . exact .inl hlt
      . exact .inr ⟨hlength, congrArg (· + 1) hidx⟩

end Termination

def acceptLoop (ctx : AcceptContext) (snapshot : FeeMetricsSnapshot) (s : Accepting) : Accepting :=
  if hi : s.i < s.q.byFee.length then
    match hturn : acceptTurn ctx snapshot s s.q.byFee[s.i] with
    | none => s
    | some s' => acceptLoop ctx snapshot s'
  else
    s
termination_by (s.q.byFee.length, s.q.byFee.length - s.i)
decreasing_by
  rcases advances_acceptTurn (getElem_mem hi) hturn with hlt | ⟨hlength, hidx⟩
  . exact .left _ _ hlt
  . rw [hlength]
    apply Prod.Lex.right
    omega

def start (q : TxQ) (h : Heap) : Accepting :=
  { q, h, i := 0, turn := 0, ledgerChanged := false, attempts := [] }

def accept (q : TxQ) (h : Heap) (ctx : AcceptContext) : Bool × TxQ × Heap :=
  let s := acceptLoop ctx q.feeMetrics.snapshot (q.start h)
  let q :=
    if ctx.getParentHash ≠ s.q.parentHash then
      { s.q with parentHash := ctx.getParentHash }.rebuildByFee
    else
      s.q
  (s.ledgerChanged, q, s.h)

end Accept

def newMaxSize (q : TxQ) : UInt64 :=
  let product := q.feeMetrics.snapshot.txnsExpected
  let product :=
    if product > maxUint64 / q.config.ledgersInQueue.toUInt64 then
      maxUint64
    else
      product * q.config.ledgersInQueue.toUInt64
  max product q.config.queueSizeMin.toUInt64

def expired (ledgerSeq : UInt32) (c : Candidate) : Bool := c.lastValid ≠ 0 ∧ c.lastValid ≤ ledgerSeq

def dropEmptyAccounts (byAccount : AList fun _ : AccountID => AccountQueue)
    : AList fun _ : AccountID => AccountQueue where
  entries := byAccount.entries.filter fun e => e.2.empty = false
  nodupKeys := by
    apply List.NodupKeys.sublist
    . exact filter_sublist
    . exact byAccount.nodupKeys

def processClosedLedger (q : TxQ) (ctx : ClosedLedgerContext) (timeLeap : Bool) : TxQ :=
  let q := { q with
    feeMetrics := q.feeMetrics.update ctx.getTransactionFeeLevels
      ctx.getTransactionCount.toUInt64 timeLeap q.config }
  let q := if timeLeap then q else { q with maxSize := some q.newMaxSize }
  let toRemove := q.byFee.filter (expired ctx.getLedgerSequence)
  let q := toRemove.foldl (fun q c => q.updateAccount c.account ({ · with dropPenalty := true })) q
  let q := toRemove.foldl erase q
  { q with byAccount := dropEmptyAccounts q.byAccount }

section Fork

variable [TxCodec]

structure Cloner where
  candidates : AList fun _ : Nat => Candidate
  h : Heap

def cloneTxn (source : Candidate) : Option (List UInt8 × Option Transaction) :=
  if source.blob.length > 0 then
    (TxCodec.parseFromBinary source.blob).map fun parsed => (source.blob, some parsed)
  else
    match source.txn with
    | none => some (source.blob, none)
    | some txn => do
      let serialized ← TxCodec.serializeTransaction txn
      let parsed ← TxCodec.parseFromBinary serialized
      return (serialized, some parsed)

def Cloner.candidate (cl : Cloner) (source : Candidate) : Option Cloner :=
  match cl.candidates.lookup source.addr with
  | some _ => some cl
  | none =>
    (cloneTxn source).map fun (blob, txn) =>
      { candidates := cl.candidates.insert source.addr { source with addr := cl.h.next, blob, txn }
        h := cl.h.alloc (cl.h.progress source.addr) }

def Cloner.all (cl : Cloner) : List Candidate → Option Cloner
  | [] => some cl
  | source :: rest => (cl.candidate source).bind fun cl => cl.all rest

def Cloner.cloned (cl : Cloner) (source : Candidate) : Candidate :=
  (cl.candidates.lookup source.addr).getD source

def fork (q : TxQ) (h : Heap) : Option (TxQ × Heap) :=
  let sources := q.byAccount.entries.flatMap (·.2.candidates) ++ q.byFee
    ++ q.byID.entries.map (·.2)
  (Cloner.all { candidates := ∅, h } sources).map fun cl =>
    ({ q with
        byFee := q.byFee.map cl.cloned
        byID := Assoc.mapValues (fun _ c => cl.cloned c) q.byID
        byAccount := Assoc.mapValues (fun _ aq =>
          { aq with transactions := Assoc.mapValues (fun _ c => cl.cloned c) aq.transactions })
          q.byAccount },
      cl.h)

end Fork

end TxQ

end TxQueue
