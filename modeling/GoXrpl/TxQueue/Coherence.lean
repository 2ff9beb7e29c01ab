import GoXrpl.TxQueue.Lemmas.Fork

open List

namespace TxQueue

open State (AccountID)

theorem xorHash_injective (parentHash : Hash256) : Function.Injective (xorHash · parentHash) := by
  intro a b hab
  apply Vector.ext
  intro i hi
  have hi' := congrArg (fun v : Hash256 => v[i]) hab
  unfold xorHash at hi'
  simp only [Vector.getElem_ofFn] at hi'
  exact (UInt8.xor_left_inj _).mp hi'

def Before (parentHash : Hash256) (a b : Candidate) : Prop :=
  b.feeLevel < a.feeLevel
    ∨ (a.feeLevel = b.feeLevel ∧ xorHash a.txID parentHash < xorHash b.txID parentHash)

theorem before_of_not_less (hid : a.txID ≠ b.txID) (h : candidateLess parentHash b a = false)
    : Before parentHash a b := by
  unfold candidateLess at h
  split at h
  . next hne =>
    left
    rw [decide_eq_false_iff_not, gt_iff_lt, UInt64.not_lt] at h
    apply UInt64.lt_of_le_of_ne h
    exact hne
  . next heq =>
    right
    refine ⟨(Decidable.of_not_not heq).symm, ?_⟩
    rw [decide_eq_false_iff_not] at h
    have hne : xorHash a.txID parentHash ≠ xorHash b.txID parentHash :=
      fun hxor => hid (xorHash_injective parentHash hxor)
    exact Std.lt_of_le_of_ne (Std.not_lt.mp h) hne

structure TxQ.Coherent (q : TxQ) : Prop where
  nodup : q.byFee.Nodup
  objects : ∀ c ∈ q.byFee, ∀ d ∈ q.byFee, c.addr = d.addr → c = d
  sorted : q.byFee.Pairwise (Before q.parentHash)
  byID : ∀ id c, q.byID.lookup id = some c ↔ c ∈ q.byFee ∧ c.txID = id
  byAccount : ∀ account seqProxy c,
    (∃ aq, q.byAccount.lookup account = some aq ∧ aq.transactions.lookup seqProxy = some c)
      ↔ c ∈ q.byFee ∧ c.account = account ∧ c.seqProxy = seqProxy

theorem TxQ.Indexed.coherent {q : TxQ} (h : q.Indexed) : q.Coherent := by
  refine ⟨h.nodup, fun c hc d hd haddr => h.known d hd c hc haddr, ?_, h.byID, ?_⟩
  . have hboth := h.nodup.and h.sorted
    apply List.Pairwise.imp_of_mem _ hboth
    rintro a b ha hb ⟨hne, hless⟩
    apply before_of_not_less _ hless
    intro hid
    exact hne (h.eq_of_txID ha hb hid)
  intro account seqProxy c
  rw [← h.byAccount]
  exact Option.bind_eq_some_iff.symm

structure System where
  heap : Heap
  queues : List TxQ

inductive Call where
  | new (config : Config)
  | apply (k : Nat) (visit : List Candidate → List Candidate) (ctx : ApplyContext)
      (txn : Transaction) (txID : Hash256) (account : AccountID)
  | accept (k : Nat) (ctx : AcceptContext)
  | processClosedLedger (k : Nat) (ctx : ClosedLedgerContext) (timeLeap : Bool)
  | fork (k : Nat)

def TxQ.Apart (q q' : TxQ) : Prop := ∀ c ∈ q.byFee, ∀ d ∈ q'.byFee, c.addr ≠ d.addr

theorem TxQ.Apart.symm {q q' : TxQ} (h : q.Apart q') : q'.Apart q := by
  intro c hc d hd haddr
  exact h d hd c hc haddr.symm

section

variable [TxCodec]

namespace System

def initial : System where
  heap := { next := 0, progress := fun _ => ⟨0, 0, 0, 0, 0⟩ }
  queues := []

def on (s : System) (k : Nat) (f : TxQ → TxQ × Heap) : System :=
  match s.queues[k]? with
  | none => s
  | some q => { heap := (f q).2, queues := s.queues.set k (f q).1 }

def step (s : System) : Call → System
  | .new config =>
    match TxQ.new config with
    | none => s
    | some q => { s with queues := s.queues ++ [q] }
  | .apply k visit ctx txn txID account =>
    s.on k fun q => (q.apply visit s.heap ctx txn txID account).2
  | .accept k ctx => s.on k fun q => (q.accept s.heap ctx).2
  | .processClosedLedger k ctx timeLeap =>
    s.on k fun q => (q.processClosedLedger ctx timeLeap, s.heap)
  | .fork k =>
    match (s.queues[k]?).bind (·.fork s.heap) with
    | none => s
    | some (q, heap) => { heap, queues := s.queues ++ [q] }

def run (calls : List Call) : System := calls.foldl step initial

structure Coherent (s : System) : Prop where
  queues : ∀ q ∈ s.queues, q.Coherent
  apart : ∀ (i j : Nat) (q q' : TxQ), i ≠ j → s.queues[i]? = some q → s.queues[j]? = some q' → q.Apart q'
  room : ∀ q ∈ s.queues, ∀ visit ctx txn txID account,
    q.byFee.length < (q.apply visit s.heap ctx txn txID account).2.1.byFee.length →
      ∀ maxSize, q.maxSize = some maxSize → q.byFee.length < maxSize.toNat
  fork : ∀ q ∈ s.queues, ∀ q' heap, q.fork s.heap = some (q', heap) →
    q.Apart q' ∧ ∃ f, TxQ.Forks q s.heap q' heap f

structure Sound (s : System) : Prop where
  sound : ∀ q ∈ s.queues, q.Sound s.heap
  apart : ∀ (i j : Nat) (q q' : TxQ), i ≠ j → s.queues[i]? = some q → s.queues[j]? = some q' → q.Apart q'

variable {s : System}

theorem apart_of_moves (hmoves : TxQ.Moves q h q' h')
    (hapart : q.Apart other) (hother : ∀ d ∈ other.byFee, d.addr < h.next)
    : q'.Apart other := by
  intro c hc d hd haddr
  rcases hmoves.fresh c hc with hold | hnew
  . exact hapart c hold d hd haddr
  have := hother d hd
  omega

theorem sound_new (hnew : TxQ.new config = some q) (heap : Heap) : q.Sound heap ∧ q.byFee = [] := by
  obtain ⟨effective, _, rfl⟩ := Option.map_eq_some_iff.mp hnew
  refine ⟨⟨⟨⟨nodup_nil, List.Pairwise.nil, ?_⟩, ?_, ?_⟩, ?_, ?_⟩, rfl⟩
  . intro id c
    simp
  . intro account seqProxy c
    constructor
    . intro hat
      cases hat
    rintro ⟨hc, _⟩
    cases hc
  . intro c hc
    cases hc
  . intro c hc
    cases hc
  intro c hc
  cases hc

namespace Sound

theorem allocated (h : s.Sound) {k : Nat} (hk : s.queues[k]? = some q)
    : ∀ d ∈ q.byFee, d.addr < s.heap.next :=
  (h.sound q (mem_of_getElem? hk)).allocated

theorem moved (h : s.Sound) {k : Nat} {heap : Heap}
    (hk : s.queues[k]? = some q) (hmoves : TxQ.Moves q s.heap q' heap)
    : Sound { heap, queues := s.queues.set k q' } := by
  constructor
  . intro other hother
    rcases mem_or_eq_of_mem_set hother with hmem | rfl
    . have hsound := h.sound other hmem
      exact ⟨hsound.indexed, hsound.sourced,
        fun c hc => Nat.lt_of_lt_of_le (hsound.allocated c hc) hmoves.next⟩
    . exact hmoves.sound
  intro i j a b hij ha hb
  rw [getElem?_set] at ha hb
  split at ha
  . next hi =>
    split at ha
    . cases ha
      rw [if_neg fun hj => hij (hi.symm.trans hj)] at hb
      apply apart_of_moves hmoves _ (h.allocated hb)
      exact h.apart k j q b (fun hkj => hij (hi.symm.trans hkj)) hk hb
    . cases ha
  . next hi =>
    split at hb
    . split at hb
      . cases hb
        apply TxQ.Apart.symm
        apply apart_of_moves hmoves _ (h.allocated ha)
        exact h.apart k i q a hi hk ha
      . cases hb
    . exact h.apart i j a b hij ha hb

theorem on (h : s.Sound) (hf : ∀ q, q.Sound s.heap → TxQ.Moves q s.heap (f q).1 (f q).2)
    : (s.on k f).Sound := by
  unfold System.on
  split
  . exact h
  . next q hk => exact h.moved hk (hf q (h.sound q (mem_of_getElem? hk)))

theorem added (h : s.Sound) {q : TxQ} {heap : Heap} (hnext : s.heap.next ≤ heap.next)
    (hq : q.Sound heap) (hnew : ∀ c ∈ q.byFee, s.heap.next ≤ c.addr)
    : Sound { heap, queues := s.queues ++ [q] } := by
  have hapart : ∀ (k : Nat) (other : TxQ), s.queues[k]? = some other → other.Apart q := by
    intro k other hk c hc d hd
    have hold := h.allocated hk c hc
    have := hnew d hd
    omega
  constructor
  . intro other hother
    rcases mem_append.mp hother with hmem | hmem
    . have hsound := h.sound other hmem
      exact ⟨hsound.indexed, hsound.sourced,
        fun c hc => Nat.lt_of_lt_of_le (hsound.allocated c hc) hnext⟩
    rw [mem_singleton.mp hmem]
    exact hq
  intro i j a b hij ha hb
  rw [getElem?_append] at ha hb
  split at ha
  . split at hb
    . exact h.apart i j a b hij ha hb
    rw [mem_singleton.mp (mem_of_getElem? hb)]
    exact hapart i a ha
  rw [mem_singleton.mp (mem_of_getElem? ha)]
  split at hb
  . exact (hapart j b hb).symm
  . next hi hj =>
    -- both are the last one
    rw [getElem?_singleton] at ha hb
    split at ha
    . split at hb
      . omega
      . cases hb
    . cases ha

theorem step (hids : IdsDetermine) (h : s.Sound) (call : Call) : (s.step call).Sound := by
  cases call with
  | new config =>
    unfold System.step
    dsimp only
    split
    . exact h
    . next q hnew =>
      obtain ⟨hq, hempty⟩ := sound_new hnew s.heap
      apply h.added (Nat.le_refl _) hq
      rw [hempty]
      intro c hc
      cases hc
  | apply k visit ctx txn txID account =>
    apply h.on
    intro q hq
    exact (hq.apply hids visit ctx txn txID account).1
  | accept k ctx =>
    apply h.on
    intro q hq
    obtain ⟨hloop, hrebuilt, hnext⟩ := hq.indexed.shrinks_accept s.heap ctx
    exact hq.moves (hloop.trans hrebuilt) hnext
  | processClosedLedger k ctx timeLeap =>
    apply h.on
    intro q hq
    exact hq.moves (hq.indexed.shrinks_processClosedLedger ctx timeLeap) rfl
  | fork k =>
    unfold System.step
    dsimp only
    split
    . exact h
    . next q' heap hfork =>
      obtain ⟨q, hk, hfork⟩ := Option.bind_eq_some_iff.mp hfork
      have hq := h.sound q (mem_of_getElem? hk)
      obtain ⟨hnext, _, f, hforks⟩ := hq.fork hfork
      apply h.added hnext (hforks.sound hq)
      intro c hc
      rw [hforks.byFee, mem_map] at hc
      obtain ⟨d, hd, rfl⟩ := hc
      exact (hforks.copied d hd).new

theorem run (hids : IdsDetermine) (h : s.Sound) (calls : List Call)
    : (calls.foldl System.step s).Sound := by
  induction calls generalizing s with
  | nil => exact h
  | cons call calls ih => exact ih (h.step hids call)

theorem coherent (hids : IdsDetermine) (h : s.Sound) : s.Coherent := by
  refine ⟨fun q hq => (h.sound q hq).indexed.coherent, h.apart, ?_, ?_⟩
  . intro q hq visit ctx txn txID account hlonger maxSize hmax
    have hmoves := ((h.sound q hq).apply hids visit ctx txn txID account).1
    have hroom := hmoves.room hlonger
    unfold TxQ.isFull at hroom
    rw [hmax, Option.any_some, decide_eq_false_iff_not, Nat.not_le] at hroom
    exact hroom
  intro q hq q' heap hfork
  have hsound := h.sound q hq
  obtain ⟨_, _, f, hforks⟩ := hsound.fork hfork
  refine ⟨?_, f, hforks⟩
  intro c hc d hd
  rw [hforks.byFee, mem_map] at hd
  obtain ⟨e, he, rfl⟩ := hd
  have hold := hsound.allocated c hc
  have hnew := (hforks.copied e he).new
  omega

end Sound

theorem sound_initial : initial.Sound := by
  constructor
  . intro q hq
    cases hq
  intro i j q q' _ hi
  cases hi

/--
Whatever is called on the queues of a node and whatever the ledgers answer, the indices of each
queue agree.
-/
theorem coherent_run (hids : IdsDetermine) (calls : List Call)
    : (run calls).Coherent := by
  apply Sound.coherent hids
  exact sound_initial.run hids calls

end System

end

namespace Sample

open State (AccountID)

def account (n : UInt8) : AccountID := Vector.replicate 20 n

def txn (n : UInt8) : Transaction where
  account := some (account n)
  fee := some (10 * n.toUInt64)
  sequence := some 5
  ticketSequence := none
  lastLedgerSequence := none
  flags := none
  previousTxnID := false
  accountTxnID := false
  delegate := false
  sponsor := false
  sponsorFlags := none
  body := .other

def sender (t : Transaction) : UInt8 := (t.account.map (·[0])).getD 0

@[reducible]
def codec : TxCodec where
  getRawBytes t := [sender t]
  serializeTransaction _ := none
  parseFromBinary raw := raw.head?.map txn
  computeTransactionHash t :=
    if t = txn (sender t) then some (Vector.replicate 32 (sender t)) else none

attribute [local instance] codec

def config : Config where
  ledgersInQueue := 1
  queueSizeMin := 2
  retrySequencePercent := 25
  minimumEscalationMultiplier := 128000
  minimumTxnInLedger := 2
  minimumTxnInLedgerStandalone := 1000
  targetTxnInLedger := 2
  maximumTxnInLedger := 0
  maximumTxnInLedgerSet := false
  normalConsensusIncreasePercent := 20
  slowConsensusDecreasePercent := 50
  maximumTxnPerAccount := 10
  minimumLastLedgerBuffer := 2
  standalone := false

def busy : ApplyContext where
  getAccountSequence _ := some 5
  accountExists _ := some true
  ticketExists _ _ := some false
  getAccountBalance _ := some 1000000000
  getAccountReserve _ := 10000000
  getBaseFees _ _ := .ok (10, 10)
  getReferenceFee := 10
  getTxInLedger := 64
  getLedgerSequence := 3
  applyTransactionWithFlags _ _ := (0, true)
  preflightTransactionWithFlags _ _ := 0
  preclaimTransactionWithFlags _ _ _ _ _ := 0
  getApplyFlags := 0
  rulesIdentity := 0
  newSandbox := false
  sandboxApply _ _ _ := (0, false)
  sandboxCommit := false

def opening : AcceptContext where
  getTxInLedger _ := 0
  applyTransactionWithFlags turn _ _ := if turn = 0 then (0, true) else (-99, false)
  preflightTransactionWithFlags _ _ _ := 0
  rulesIdentity _ := 0
  getParentHash := Vector.replicate 32 1

-- The queue holds two candidates; the third transaction evicts the cheapest.
def calls : List Call :=
  [.new config, .processClosedLedger 0 ⟨2, 0, []⟩ false, .apply 0 id busy (txn 1) Hash256.zero (account 1),
    .apply 0 id busy (txn 2) Hash256.zero (account 2), .apply 0 id busy (txn 3) Hash256.zero (account 3),
    .fork 0]

theorem idsDetermine : IdsDetermine := by
  intro t t' id ht ht'
  have hall : ∀ u : Transaction, TxCodec.computeTransactionHash u = some id → u = txn id[0] := by
    intro u hu
    obtain ⟨heq, hid⟩ := Option.ite_none_right_eq_some.mp hu
    cases hid
    rw [Vector.getElem_replicate]
    exact heq
  rw [hall t ht, hall t' ht']
  exact ⟨rfl, rfl⟩

theorem coherent_run_calls
    : (System.run (calls.take 4)).queues.map (·.byFee.map (·.feeLevel)) = [[512, 256]]
      ∧ (System.run calls).queues.map (·.byFee.map (·.feeLevel)) = [[768, 512], [768, 512]]
      ∧ (System.run (calls ++ [.accept 0 opening])).Coherent :=
  ⟨by decide +kernel, by decide +kernel, System.coherent_run idsDetermine _⟩

end Sample

end TxQueue
