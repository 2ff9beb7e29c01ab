import GoXrpl.SHAMap.Impl.Mutation
import GoXrpl.Sorting.Basic
import GoXrpl.State.Impl.Entry

/-!
This module contains pending transactions, the order in which they are tried, the passes over them
and how a closed ledger is built from its parent.
-/

namespace OpenLedger

open Sorting

structure PendingTx where
  blob : List UInt8
  hash : Hash256
  account : State.AccountID
  sequence : UInt32
  isTicket : Bool
  deriving DecidableEq

def computeAccountKey (account : State.AccountID) (salt : Hash256) : Hash256 :=
  Vector.ofFn fun i => account.toList.getD i 0 ^^^ salt.get i

def before (salt : Hash256) (a b : PendingTx) : Bool :=
  if computeAccountKey a.account salt ≠ computeAccountKey b.account salt then
    decide (computeAccountKey a.account salt < computeAccountKey b.account salt)
  else if a.isTicket ≠ b.isTicket then
    !a.isTicket
  else if a.sequence ≠ b.sequence then
    decide (a.sequence < b.sequence)
  else
    decide (a.hash < b.hash)

def canonicalSort (txs : List PendingTx) (salt : Hash256) : List PendingTx :=
  if txs.length ≤ 1 then txs else stableSort (before salt) txs

inductive SaltError where
  | insert (txHash : Hash256) (err : SHAMap.Error)
  | hash (err : SHAMap.Error)

section

variable [Sha512Half]

def insertTxs : SHAMap → List PendingTx → Except SaltError SHAMap
  | txMap, [] => .ok txMap
  | txMap, ptx :: txs =>
    match txMap.putWithNodeType ptx.hash ptx.blob .transactionNoMeta with
    | (.error err, _) => .error (.insert ptx.hash err)
    | (.ok (), txMap) => insertTxs txMap txs

def computeSalt (txs : List PendingTx) : Except SaltError Hash256 :=
  match insertTxs (SHAMap.new .transaction) txs with
  | .error err => .error err
  | .ok txMap =>
    match txMap.hash with
    | .error err => .error (.hash err)
    | .ok root => .ok root

end

def totalPasses : Nat := 3
def retryPasses : Nat := 1

def nextRetryState (certainRetry : Bool) (changes pass : Nat) : Bool :=
  certainRetry && changes ≠ 0 && pass < retryPasses

inductive Mode where
  | openLedger
  | buildLedger
  deriving DecidableEq

inductive Result where
  | success
  | failure
  | retry
  deriving DecidableEq

structure ApplyResult (Err : Type) where
  applied : Bool
  result : Int
  cause : Option Err

def isTef (r : Int) : Bool := r ≥ -199 && r ≤ -100
def isTem (r : Int) : Bool := r ≥ -299 && r ≤ -200
def isTel (r : Int) : Bool := r ≥ -399 && r ≤ -300

structure ApplyConfig where
  mode : Mode
  -- whether `Rules` is set
  hasRules : Bool
  skipSignatureVerification : Bool
  retrySalt : Option Hash256

structure Processor (View Engine Tx Err : Type) where
  parseFromBinary : List UInt8 → Except Err Tx
  txExists : View → Hash256 → Except Err Bool
  buildEngine : View → (certainRetry skipSig : Bool) → Engine
  applyTransaction : Mode → Engine → Tx → List UInt8 → Except Err (ApplyResult Err) × Engine
  view : Engine → View

inductive ApplyError (Err : Type) where
  | noRules
  | parse (txHash : Hash256) (err : Err)
  | parseRetry (txHash : Hash256) (err : Err)
  | check (txHash : Hash256) (err : Err)
  | apply (pass : Nat) (txHash : Hash256) (err : Err)

structure RetryCandidate (Tx : Type) where
  pending : PendingTx
  parsed : Tx

variable {View Engine Tx Err : Type}

def applyAndClassify (p : Processor View Engine Tx Err) (mode : Mode) (e : Engine) (tx : Tx)
    (blob : List UInt8) : Except Err Result × Engine :=
  match p.applyTransaction mode e tx blob with
  | (.error err, e) => (.error err, e)
  | (.ok r, e) =>
    match r.cause with
    | some cause => (.error cause, e)
    | none =>
      if r.applied then
        (.ok .success, e)
      else if isTef r.result || isTem r.result || isTel r.result then
        (.ok .failure, e)
      else
        (.ok .retry, e)

def appendRetryCandidate (queue : List (RetryCandidate Tx)) (seen : List Hash256) (ptx : PendingTx)
    (parsed : Tx) : List (RetryCandidate Tx) × List Hash256 :=
  if ptx.hash ∈ seen then
    (queue, seen)
  else
    (queue ++ [{ pending := ptx, parsed }], ptx.hash :: seen)

def orderRetryCandidates (queue : List (RetryCandidate Tx)) (salt : Option Hash256)
    : List (RetryCandidate Tx) :=
  match salt with
  | none => queue
  | some salt =>
    if queue.length < 2 then
      queue
    else
      (canonicalSort (queue.map (·.pending)) salt).filterMap fun ptx =>
        queue.reverse.find? fun candidate => candidate.pending.hash = ptx.hash

structure Attempt where
  pass : Nat
  tx : PendingTx

def prepare (p : Processor View Engine Tx Err) (view : View) (checkMembership : Bool)
    : List PendingTx → Except (ApplyError Err) (List (PendingTx × Tx × Bool))
  | [] => .ok []
  | ptx :: txs =>
    match p.parseFromBinary ptx.blob with
    | .error err => .error (.parse ptx.hash err)
    | .ok parsed =>
      match if checkMembership then p.txExists view ptx.hash else .ok false with
      | .error err => .error (.check ptx.hash err)
      | .ok found =>
        match prepare p view checkMembership txs with
        | .error err => .error err
        | .ok rest => .ok ((ptx, parsed, !found) :: rest)

def seedRetries (p : Processor View Engine Tx Err)
    : List PendingTx → List (RetryCandidate Tx) × List Hash256 →
      Except (ApplyError Err) (List (RetryCandidate Tx) × List Hash256)
  | [], queue => .ok queue
  | ptx :: txs, queue =>
    match p.parseFromBinary ptx.blob with
    | .error err => .error (.parseRetry ptx.hash err)
    | .ok parsed => seedRetries p txs (appendRetryCandidate queue.1 queue.2 ptx parsed)

structure Pass (Engine Tx : Type) where
  engine : Engine
  changes : Nat
  retries : List (RetryCandidate Tx)
  seen : List Hash256
  attempts : List Attempt

def initialPass (p : Processor View Engine Tx Err) (mode : Mode)
    : List (PendingTx × Tx × Bool) → Pass Engine Tx → Except (ApplyError Err) (Pass Engine Tx)
  | [], s => .ok s
  | (ptx, parsed, eligible) :: txs, s =>
    if !eligible then
      initialPass p mode txs s
    else
      match applyAndClassify p mode s.engine parsed ptx.blob with
      | (.error err, _) => .error (.apply 0 ptx.hash err)
      | (.ok outcome, engine) =>
        let s := { s with engine, attempts := s.attempts ++ [⟨0, ptx⟩] }
        match outcome with
        | .success => initialPass p mode txs { s with changes := s.changes + 1 }
        | .failure => initialPass p mode txs s
        | .retry =>
          let queue := appendRetryCandidate s.retries s.seen ptx parsed
          initialPass p mode txs { s with retries := queue.1, seen := queue.2 }

def retryPass (p : Processor View Engine Tx Err) (mode : Mode) (pass : Nat)
    : List (RetryCandidate Tx) → Pass Engine Tx → Except (ApplyError Err) (Pass Engine Tx)
  | [], s => .ok s
  | candidate :: candidates, s =>
    match applyAndClassify p mode s.engine candidate.parsed candidate.pending.blob with
    | (.error err, _) => .error (.apply (pass + 1) candidate.pending.hash err)
    | (.ok outcome, engine) =>
      let s := { s with engine, attempts := s.attempts ++ [⟨pass + 1, candidate.pending⟩] }
      match outcome with
      | .success => retryPass p mode pass candidates { s with changes := s.changes + 1 }
      | .failure => retryPass p mode pass candidates s
      | .retry => retryPass p mode pass candidates { s with retries := s.retries ++ [candidate] }

structure Passes (View Tx : Type) where
  view : View
  retries : List (RetryCandidate Tx)
  attempts : List Attempt

def retryLoop (p : Processor View Engine Tx Err) (cfg : ApplyConfig) (passOffset : Nat)
    : Nat → Nat → Bool → Passes View Tx → Except (ApplyError Err) (Passes View Tx)
  | 0, _, _, s => .ok s
  | remaining + 1, pass, certainRetry, s =>
    if s.retries.isEmpty then
      .ok s
    else
      let engine := p.buildEngine s.view certainRetry (cfg.skipSignatureVerification || pass > 0)
      match retryPass p cfg.mode pass s.retries
          { engine, changes := 0, retries := [], seen := [], attempts := s.attempts } with
      | .error err => .error err
      | .ok r =>
        let s := { view := p.view r.engine, retries := r.retries, attempts := r.attempts }
        if r.changes = 0 ∧ certainRetry = false then
          .ok s
        else
          retryLoop p cfg passOffset remaining (pass + 1)
            (nextRetryState certainRetry r.changes (pass + passOffset)) s

def collectRetries : List PendingTx → List (RetryCandidate Tx) → List PendingTx
  | retries, [] => retries
  | retries, candidate :: candidates =>
    if candidate.pending.hash ∈ retries.map (·.hash) then
      collectRetries retries candidates
    else
      collectRetries (retries ++ [candidate.pending]) candidates

/--
`applyTxs` with the caller's list of retries.
-/
def applyTxs (p : Processor View Engine Tx Err) (cfg : ApplyConfig)
    (checkMembership includeSeededRetries : Bool) (view : View) (txs retries : List PendingTx)
    : Except (ApplyError Err) (View × List PendingTx × List Attempt) :=
  if txs.isEmpty ∧ (includeSeededRetries = false ∨ retries.isEmpty) then
    .ok (view, retries, [])
  else if !cfg.hasRules then
    .error .noRules
  else
    match prepare p view checkMembership txs with
    | .error err => .error err
    | .ok prepared =>
      match if includeSeededRetries then seedRetries p retries ([], []) else .ok ([], []) with
      | .error err => .error err
      | .ok queue =>
        match initialPass p cfg.mode prepared
            {
              engine := p.buildEngine view true cfg.skipSignatureVerification
              changes := 0
              retries := queue.1
              seen := queue.2
              attempts := []
            } with
        | .error err => .error err
        | .ok first =>
          let s :=
            {
              view := p.view first.engine
              retries := orderRetryCandidates first.retries cfg.retrySalt
              attempts := first.attempts
            }
          let loop :=
            match cfg.mode with
            | .openLedger => retryLoop p cfg 0 totalPasses 0 true s
            | .buildLedger =>
              retryLoop p cfg 1 (totalPasses - 1) 0 (nextRetryState true first.changes 0) s
          match loop with
          | .error err => .error err
          | .ok s =>
            let kept := if includeSeededRetries then [] else retries
            .ok (s.view, collectRetries kept s.retries, s.attempts)

structure Ledgers (View Engine Tx Err Time : Type) where
  isOpen : View → Bool
  newOpenForBuild : View → Time → Except Err View
  sequence : View → UInt32
  updateNegativeUNL : View → Except Err View
  close : View → Time → UInt8 → Except Err View
  processor : View → Processor View Engine Tx Err

structure BuildConfig (Time : Type) where
  closeTime : Time
  closeFlags : UInt8
  canonicalSalt : Option Hash256
  apply : ApplyConfig

structure BuildResult (View : Type) where
  ledger : View
  retries : List PendingTx
  -- the calls of the engine, which an observer of the configuration sees
  attempts : List Attempt

inductive BuildError (Err : Type) where
  | parentNil
  | parentOpen
  | salt (err : SaltError)
  | createChild (err : Err)
  | updateNegativeUNL (err : Err)
  | apply (err : ApplyError Err)
  | close (err : Err)

def isFlagLedger (seq : UInt32) : Bool := seq % 256 == 0

variable [Sha512Half] {Time : Type}

def buildSorted (ledgers : Ledgers View Engine Tx Err Time) (cfg : BuildConfig Time) (parent : View)
    (pending : List PendingTx) : Except (BuildError Err) (BuildResult View) :=
  match ledgers.newOpenForBuild parent cfg.closeTime with
  | .error err => .error (.createChild err)
  | .ok child =>
    match if isFlagLedger (ledgers.sequence child) then ledgers.updateNegativeUNL child
        else .ok child with
    | .error err => .error (.updateNegativeUNL err)
    | .ok child =>
      match applyTxs (ledgers.processor child) { cfg.apply with mode := .buildLedger } true true child
          pending [] with
      | .error err => .error (.apply err)
      | .ok (child, retries, attempts) =>
        match ledgers.close child cfg.closeTime cfg.closeFlags with
        | .error err => .error (.close err)
        | .ok child => .ok { ledger := child, retries, attempts }

def saltFor (cfg : BuildConfig Time) (pending : List PendingTx) : Except SaltError Hash256 :=
  match cfg.canonicalSalt with
  | some salt => .ok salt
  | none => computeSalt pending

def buildClosedLedger (ledgers : Ledgers View Engine Tx Err Time) (cfg : BuildConfig Time)
    (parent : Option View) (transactions : List PendingTx)
    : Except (BuildError Err) (BuildResult View) :=
  match parent with
  | none => .error .parentNil
  | some parent =>
    if ledgers.isOpen parent then
      .error .parentOpen
    else
      match saltFor cfg transactions with
      | .error err => .error (.salt err)
      | .ok salt => buildSorted ledgers cfg parent (canonicalSort transactions salt)

end OpenLedger
