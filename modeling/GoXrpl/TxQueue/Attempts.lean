import GoXrpl.TxQueue.Coherence
import Mathlib.Data.List.MinMax

open List

namespace TxQueue

namespace AccountQueue

theorem firstSeqTx_eq_argmin (aq : AccountQueue)
    : aq.firstSeqTx = argmin (·.seqProxy.value.toNat)
        ((aq.transactions.entries.filter fun e => e.2.seqProxy.isTicket = false).map (·.2)) := by
  unfold firstSeqTx best argmin
  rw [foldl_map]
  congr 1
  funext found e
  cases found with
  | none => rfl
  | some first => simp [argAux, UInt32.lt_iff_toNat_lt]

theorem exists_firstSeqTx_le {aq : AccountQueue}
    (hlookup : aq.transactions.lookup sp = some c) (hseq : c.seqProxy.isTicket = false)
    : ∃ first, aq.firstSeqTx = some first ∧ first.seqProxy.value ≤ c.seqProxy.value := by
  have hentry : ⟨sp, c⟩ ∈ aq.transactions.entries.filter fun e => e.2.seqProxy.isTicket = false :=
    mem_filter.mpr ⟨Assoc.mem_entries_iff.mpr hlookup, decide_eq_true hseq⟩
  cases hfirst : aq.firstSeqTx with
  | none =>
    rw [firstSeqTx_eq_argmin, argmin_eq_none, map_eq_nil_iff] at hfirst
    rw [hfirst] at hentry
    cases hentry
  | some first =>
    rw [firstSeqTx_eq_argmin] at hfirst
    exact ⟨first, rfl, le_of_mem_argmin (mem_map_of_mem hentry) hfirst⟩

end AccountQueue

namespace TxQ

structure InOrder (ctx : AcceptContext) (snapshot : FeeMetricsSnapshot) (a : Attempt) : Prop where
  queued : a.candidate ∈ a.q.byFee
  fee : scaleFeeLevel snapshot (ctx.getTxInLedger a.turn) ≤ a.candidate.feeLevel
  first : a.candidate.seqProxy.isTicket = false → ∀ d ∈ a.q.byFee, d.account = a.candidate.account →
    d.seqProxy.isTicket = false → a.candidate.seqProxy.value ≤ d.seqProxy.value

theorem Allowed.inOrder (h : Allowed ctx snapshot s c aq) (hs : s.q.Indexed) (hc : c ∈ s.q.byFee)
    : InOrder ctx snapshot ⟨s.q, s.turn, c⟩ := by
  refine ⟨hc, UInt64.not_lt.mp h.fee, ?_⟩
  intro hseq d hd haccount hseq'
  have hat := (hs.byAccount c.account d.seqProxy d).mpr ⟨hd, haccount, rfl⟩
  unfold candidateAt at hat
  rw [h.account] at hat
  obtain ⟨first, hsome, hle⟩ := AccountQueue.exists_firstSeqTx_le hat hseq'
  have hfirst := h.first
  rw [hsome] at hfirst
  apply UInt32.le_trans _ hle
  exact UInt32.not_lt.mp fun hlt => hfirst ⟨hseq, decide_eq_true hlt⟩

structure Spent (live : Nat → Prop) (h : Heap) (n : Nat → Nat) : Prop where
  left : ∀ addr, live addr → 0 ≤ (h.progress addr).retriesRemaining
    ∧ n addr + (h.progress addr).retriesRemaining ≤ retriesAllowed
  all : ∀ addr, n addr ≤ retriesAllowed + 1

def count (attempts : List Attempt) (addr : Nat) : Nat :=
  attempts.countP (·.candidate.addr = addr)

def Holds (q : TxQ) (addr : Nat) : Prop := ∃ c ∈ q.byFee, c.addr = addr

variable {s s' : Accepting} {n : Nat → Nat} {other : Nat → Prop}

theorem Spent.turned
    (h : Spent (fun addr => other addr ∨ s.q.Holds addr) s.h fun addr => n addr + count s.attempts addr)
    (hs : s.q.Indexed) (hother : ∀ c ∈ s.q.byFee, ¬ other c.addr) (hc : c ∈ s.q.byFee)
    (hturned : Turned ctx snapshot s c s')
    : Spent (fun addr => other addr ∨ s'.q.Holds addr) s'.h
        fun addr => n addr + count s'.attempts addr := by
  have hsub := hturned.shrinks.subset
  have hlive : ∀ addr, other addr ∨ s'.q.Holds addr → other addr ∨ s.q.Holds addr :=
    fun addr => Or.imp_right fun ⟨d, hd, haddr⟩ => ⟨d, hsub hd, haddr⟩
  rcases hturned.heap with ⟨hlog, hheap⟩ | ⟨hlog, _, htouches, hkept⟩
  . rw [hheap, hlog]
    exact ⟨fun addr haddr => h.left addr (hlive addr haddr), h.all⟩
  have hleft := h.left c.addr (.inr ⟨c, hc, rfl⟩)
  have hcount : ∀ addr, count s'.attempts addr
      = count s.attempts addr + if c.addr = addr then 1 else 0 := by
    intro addr
    unfold count
    rw [hlog, countP_append, countP_singleton]
    simp only [decide_eq_true_eq]
  constructor
  . intro addr haddr
    rw [hcount]
    split
    . next heq =>
      subst heq
      rcases haddr with hin | ⟨d, hd, hsame⟩
      . exact absurd hin (hother c hc)
      rw [hs.known c hc d (hsub hd) hsame] at hd
      have hspends := hkept hd
      have hpos := hspends.left
      have hless := hspends.less
      omega
    . next hne =>
      rw [htouches.others addr (Ne.symm hne)]
      exact h.left addr (hlive addr haddr)
  intro addr
  rw [hcount]
  have hall := h.all addr
  split
  . next heq =>
    subst heq
    omega
  . exact hall

variable [TxCodec] {ctx : AcceptContext} {q : TxQ}

/--
The attempts of a call of `accept`, each with the queue in which it is made.
-/
def attempts (q : TxQ) (h : Heap) (ctx : AcceptContext) : List Attempt :=
  (acceptLoop ctx q.feeMetrics.snapshot (q.start h)).attempts

theorem Accepting.Within.mem_attempts {next : Nat} (h : s.Within q next)
    (hlog : ∀ a ∈ s.attempts, a.candidate ∈ q.byFee ∧ InOrder ctx snapshot a)
    : ∀ a ∈ (TxQ.acceptLoop ctx snapshot s).attempts, a.candidate ∈ q.byFee ∧ InOrder ctx snapshot a := by
  fun_induction TxQ.acceptLoop ctx snapshot s with
  | case1 s hi hturn => exact hlog
  | case2 s hi s' hturn ih =>
    have hmem := getElem_mem hi
    apply ih (h.acceptTurn hmem hturn)
    rcases (h.shrinks.indexed.turned hmem (turn_acceptTurn hturn)).heap with
      ⟨hsame, _⟩ | ⟨hone, ⟨aq, hallowed⟩, _⟩
    . rw [hsame]
      exact hlog
    rw [hone]
    intro a ha
    rcases mem_append.mp ha with ha | ha
    . exact hlog a ha
    rw [mem_singleton.mp ha]
    exact ⟨h.shrinks.subset hmem, hallowed.inOrder h.shrinks.indexed hmem⟩
  | case3 s hi => exact hlog

theorem Indexed.mem_attempts (h : q.Indexed)
    : ∀ a ∈ q.attempts heap ctx, a.candidate ∈ q.byFee ∧ InOrder ctx q.feeMetrics.snapshot a := by
  have hstart : (q.start heap).Within q heap.next := ⟨h.shrinks, rfl⟩
  apply hstart.mem_attempts
  intro a ha
  cases ha

theorem Spent.acceptLoop
    (h : Spent (fun addr => other addr ∨ s.q.Holds addr) s.h fun addr => n addr + count s.attempts addr)
    (hs : s.q.Indexed) (hother : ∀ c ∈ s.q.byFee, ¬ other c.addr)
    : Spent (fun addr => other addr ∨ (TxQ.acceptLoop ctx snapshot s).q.Holds addr)
        (TxQ.acceptLoop ctx snapshot s).h
        fun addr => n addr + count (TxQ.acceptLoop ctx snapshot s).attempts addr := by
  fun_induction TxQ.acceptLoop ctx snapshot s with
  | case1 s hi hturn => exact h
  | case2 s hi s' hturn ih =>
    have hmem := getElem_mem hi
    have hturned := hs.turned hmem (turn_acceptTurn hturn)
    exact ih (h.turned hs hother hmem hturned) hturned.shrinks.indexed
      fun d hd => hother d (hturned.shrinks.subset hd)
  | case3 s hi => exact h

/--
The address of the candidate that the one at an address of a fork is a copy of.
-/
def origin (q : TxQ) (h : Heap) (addr : Nat) : Nat :=
  match q.fork h with
  | none => addr
  | some (copy, _) => (((copy.byFee.zip q.byFee).find? (·.1.addr = addr)).map (·.2.addr)).getD addr

theorem Forks.origin (hforks : Forks q h q' h' f) (hfork : q.fork h = some (q', h')) (addr : Nat)
    : (q.Holds (q.origin h addr) ∧ h'.progress addr = h.progress (q.origin h addr) ∧ addr < h'.next)
      ∨ (¬ q'.Holds addr ∧ q.origin h addr = addr) := by
  have hzip := zip_map' (f := f) (g := id) (l := q.byFee)
  rw [map_id, ← hforks.byFee] at hzip
  unfold TxQ.origin
  rw [hfork]
  dsimp only
  rw [hzip, find?_map]
  cases hfind : q.byFee.find? _ with
  | none =>
    refine .inr ⟨?_, rfl⟩
    rintro ⟨c', hc', haddr⟩
    rw [hforks.byFee, mem_map] at hc'
    obtain ⟨c, hc, rfl⟩ := hc'
    exact find?_eq_none.mp hfind c hc (decide_eq_true haddr)
  | some c =>
    have hc := mem_of_find?_eq_some hfind
    have hcopied := hforks.copied c hc
    have haddr := find?_some hfind
    rw [← of_decide_eq_true haddr]
    exact .inl ⟨⟨c, hc, rfl⟩, hcopied.progress, hcopied.allocated⟩

end TxQ

namespace System

open TxQ (Spent Lowers Moves count)

variable [TxCodec] {s : System}

def attempts (s : System) : Call → List TxQ.Attempt
  | .accept k ctx => ((s.queues[k]?).map (·.attempts s.heap ctx)).getD []
  | _ => []

def origin (s : System) : Call → Nat → Nat
  | .fork k, addr => ((s.queues[k]?).map (·.origin s.heap addr)).getD addr
  | _, addr => addr

/--
How often the candidate at each address has been attempted after some more calls. A copy goes on with
the life of its source.
-/
def attempted (s : System) (n : Nat → Nat) : List Call → Nat → Nat
  | [] => n
  | call :: calls =>
    (s.step call).attempted (fun addr => n (s.origin call addr) + count (s.attempts call) addr) calls

def Live (s : System) (addr : Nat) : Prop := ∃ q ∈ s.queues, q.Holds addr

structure Lasting (s : System) (n : Nat → Nat) : Prop where
  sound : s.Sound
  spent : Spent s.Live s.heap n
  fresh : ∀ addr, s.heap.next ≤ addr → n addr = 0

namespace Lasting

theorem moved (h : s.Lasting n) {heap : Heap} (hk : s.queues[k]? = some q)
    (hmoves : Moves q s.heap q' heap) (hlowers : Lowers s.heap heap)
    : Lasting { heap, queues := s.queues.set k q' } n := by
  have hsound := h.sound.moved hk hmoves
  refine ⟨hsound, ⟨?_, h.spent.all⟩, fun addr hle => h.fresh addr (Nat.le_trans hmoves.next hle)⟩
  rintro _ ⟨other, hmem, c, hc, rfl⟩
  have hallocated := (hsound.sound other hmem).allocated c hc
  have hlive : s.Live c.addr ∨ s.heap.next ≤ c.addr := by
    rcases mem_or_eq_of_mem_set hmem with hmem | rfl
    . exact .inl ⟨other, hmem, c, hc, rfl⟩
    . exact (hmoves.fresh c hc).imp_left fun hold => ⟨q, mem_of_getElem? hk, c, hold, rfl⟩
  by_cases hold : c.addr < s.heap.next
  . have hleft := h.spent.left c.addr (hlive.resolve_right (Nat.not_le.mpr hold))
    have hless := hlowers.old c.addr hold hleft.1
    dsimp only
    omega
  dsimp only
  rw [hlowers.new c.addr (Nat.not_lt.mp hold) hallocated, h.fresh c.addr (Nat.not_lt.mp hold)]
  decide

theorem on (h : s.Lasting n)
    (hf : ∀ q, q.Sound s.heap → Moves q s.heap (f q).1 (f q).2 ∧ Lowers s.heap (f q).2)
    : (s.on k f).Lasting n := by
  unfold System.on
  split
  . exact h
  . next q hk =>
    obtain ⟨hmoves, hlowers⟩ := hf q (h.sound.sound q (mem_of_getElem? hk))
    exact h.moved hk hmoves hlowers

theorem accept (h : s.Lasting n) (hsound : (s.step (.accept k ctx)).Sound)
    : (s.step (.accept k ctx)).Lasting fun addr => n addr + count (s.attempts (.accept k ctx)) addr := by
  unfold System.step System.on System.attempts at *
  dsimp only at *
  cases hk : s.queues[k]? with
  | none => exact h
  | some q =>
    rw [hk] at hsound
    have hq := h.sound.sound q (mem_of_getElem? hk)
    obtain ⟨_, hrebuilt, hnext⟩ := hq.indexed.shrinks_accept s.heap ctx
    have hstart : Spent (fun addr => (s.Live addr ∧ ¬ q.Holds addr) ∨ q.Holds addr) s.heap n :=
      ⟨fun addr haddr => h.spent.left addr
        (haddr.elim And.left fun hin => ⟨q, mem_of_getElem? hk, hin⟩), h.spent.all⟩
    have hend := @Spent.acceptLoop (q.start s.heap) _ _ _ ctx q.feeMetrics.snapshot hstart hq.indexed
      fun c hc hother => hother.2 ⟨c, hc, rfl⟩
    refine ⟨hsound, ⟨?_, hend.all⟩, ?_⟩
    . rintro addr ⟨q', hmem, hholds⟩
      apply hend.left
      obtain ⟨j, hj⟩ := mem_iff_getElem?.mp hmem
      rw [getElem?_set] at hj
      split at hj
      . split at hj
        . cases hj
          obtain ⟨c, hc, haddr⟩ := hholds
          exact .inr ⟨c, hrebuilt.subset hc, haddr⟩
        . cases hj
      . next hne =>
        refine .inl ⟨⟨q', mem_of_getElem? hj, hholds⟩, ?_⟩
        rintro ⟨c, hc, rfl⟩
        obtain ⟨d, hd, haddr⟩ := hholds
        exact h.sound.apart k j q q' hne hk hj c hc d hd haddr.symm
    intro addr hle
    rw [hnext] at hle
    have hnone : count (q.attempts s.heap ctx) addr = 0 := by
      apply countP_eq_zero.mpr
      intro a ha haddr
      have hold := hq.allocated a.candidate (hq.indexed.mem_attempts a ha).1
      rw [of_decide_eq_true haddr] at hold
      omega
    exact (congrArg (n addr + ·) hnone).trans (h.fresh addr hle)

theorem added (h : s.Lasting n) {heap : Heap} {origin : Nat → Nat}
    (hsound : Sound { heap, queues := s.queues ++ [q'] }) (hnext : s.heap.next ≤ heap.next)
    (hold : ∀ addr < s.heap.next, heap.progress addr = s.heap.progress addr)
    (horigin : ∀ addr, (s.Live (origin addr) ∧ heap.progress addr = s.heap.progress (origin addr)
      ∧ addr < heap.next) ∨ (¬ q'.Holds addr ∧ origin addr = addr))
    : Lasting { heap, queues := s.queues ++ [q'] } fun addr => n (origin addr) := by
  refine ⟨hsound, ⟨?_, fun addr => h.spent.all _⟩, ?_⟩
  . rintro addr ⟨other, hmem, hholds⟩
    rcases horigin addr with ⟨hlive, hprogress, _⟩ | ⟨hnot, heq⟩
    . rw [hprogress]
      exact h.spent.left _ hlive
    have hmem : other ∈ s.queues := by
      rcases mem_append.mp hmem with hmem | hmem
      . exact hmem
      rw [mem_singleton.mp hmem] at hholds
      exact absurd hholds hnot
    obtain ⟨c, hc, rfl⟩ := hholds
    rw [heq, hold c.addr ((h.sound.sound other hmem).allocated c hc)]
    exact h.spent.left c.addr ⟨other, hmem, c, hc, rfl⟩
  intro addr hle
  rcases horigin addr with ⟨_, _, hlt⟩ | ⟨_, heq⟩
  . exact absurd hle (Nat.not_le.mpr hlt)
  rw [heq]
  exact h.fresh addr (Nat.le_trans hnext hle)

theorem fork (h : s.Lasting n) (hsound : (s.step (.fork k)).Sound)
    : (s.step (.fork k)).Lasting fun addr => n (s.origin (.fork k) addr) := by
  unfold System.step System.origin at *
  dsimp only at *
  cases hk : s.queues[k]? with
  | none => exact h
  | some q =>
    have hmem := mem_of_getElem? hk
    simp only [hk, Option.bind_some, Option.map_some, Option.getD_some] at hsound ⊢
    cases hfork : q.fork s.heap with
    | none =>
      have horigin : ∀ addr, q.origin s.heap addr = addr := by
        intro addr
        unfold TxQ.origin
        rw [hfork]
      simp only [horigin]
      exact h
    | some forked =>
      rw [hfork] at hsound
      obtain ⟨hnext, hold, f, hforks⟩ := (h.sound.sound q hmem).fork hfork
      apply h.added hsound hnext hold
      intro addr
      exact (hforks.origin hfork addr).imp_left (And.imp_left fun hin => ⟨q, hmem, hin⟩)

theorem step (hids : IdsDetermine) (h : s.Lasting n) (call : Call)
    : (s.step call).Lasting fun addr => n (s.origin call addr) + count (s.attempts call) addr := by
  have hsound := h.sound.step hids call
  cases call with
  | new config =>
    unfold System.step at *
    dsimp only at *
    cases hnew : TxQ.new config with
    | none => exact h
    | some q =>
      rw [hnew] at hsound
      apply h.added hsound (Nat.le_refl _) fun _ _ => rfl
      refine fun addr => .inr ⟨?_, rfl⟩
      rintro ⟨c, hc, _⟩
      rw [(sound_new hnew s.heap).2] at hc
      cases hc
  | apply k visit ctx txn txID account =>
    exact h.on fun q hq => hq.apply hids visit ctx txn txID account
  | accept k ctx => exact h.accept hsound
  | processClosedLedger k ctx timeLeap =>
    apply h.on
    intro q hq
    exact ⟨hq.moves (hq.indexed.shrinks_processClosedLedger ctx timeLeap) rfl, .refl _⟩
  | fork k => exact h.fork hsound

theorem attempted_le (hids : IdsDetermine) (h : s.Lasting n) (calls : List Call) (addr : Nat)
    : s.attempted n calls addr ≤ retriesAllowed + 1 := by
  induction calls generalizing s n with
  | nil => exact h.spent.all addr
  | cons call calls ih => exact ih (h.step hids call)

end Lasting

/--
An attempt is paid for at the level of the moment and made in sequence, and no candidate is
attempted more often than it has retries and once more.
-/
theorem accept_bounded (hids : IdsDetermine)
    : (∀ (q : TxQ) (heap : Heap) (ctx : AcceptContext), q.Indexed → ∀ a ∈ q.attempts heap ctx,
        TxQ.InOrder ctx q.feeMetrics.snapshot a)
      ∧ ∀ calls addr, initial.attempted (fun _ => 0) calls addr ≤ retriesAllowed + 1 := by
  constructor
  . intro q heap ctx hq a ha
    exact (hq.mem_attempts a ha).2
  intro calls addr
  apply Lasting.attempted_le hids
  refine ⟨sound_initial, ⟨?_, fun _ => by decide⟩, fun _ _ => rfl⟩
  rintro addr ⟨q, hq, _⟩
  cases hq

end System

namespace Sample

attribute [local instance] codec

-- The loop as far as some number of turns, for its evaluation
def acceptTurns (ctx : AcceptContext) (snapshot : FeeMetricsSnapshot)
    : Nat → TxQ.Accepting → Option TxQ.Accepting
  | 0, _ => none
  | n + 1, s =>
    match s.q.byFee[s.i]? with
    | none => some s
    | some c =>
      match TxQ.acceptTurn ctx snapshot s c with
      | none => some s
      | some s' => acceptTurns ctx snapshot n s'

theorem acceptLoop_eq (h : acceptTurns ctx snapshot n s = some s')
    : TxQ.acceptLoop ctx snapshot s = s' := by
  induction n generalizing s with
  | zero => cases h
  | succ n ih =>
    unfold acceptTurns at h
    unfold TxQ.acceptLoop
    split
    . next hi =>
      rw [getElem?_eq_getElem hi] at h
      dsimp only at h
      split
      . next hturn =>
        rw [hturn] at h
        exact Option.some.inj h
      . next hturn =>
        rw [hturn] at h
        exact ih h
    . next hi =>
      rw [getElem?_eq_none (Nat.not_lt.mp hi)] at h
      exact Option.some.inj h

theorem attempts_calls
    : ∀ q ∈ (System.run calls).queues,
      (q.attempts (System.run calls).heap opening).map (·.candidate.feeLevel) = [768, 512] := by
  intro q hq
  have hturns : ∀ q ∈ (System.run calls).queues,
      (acceptTurns opening q.feeMetrics.snapshot 3 (q.start (System.run calls).heap)).map
        (·.attempts.map (·.candidate.feeLevel)) = some [768, 512] := by
    decide +kernel
  obtain ⟨s, hs, hlevels⟩ := Option.map_eq_some_iff.mp (hturns q hq)
  unfold TxQ.attempts
  rw [acceptLoop_eq hs]
  exact hlevels

theorem accept_bounded_calls
    : (System.run calls).queues.length = 2
      ∧ (∀ q ∈ (System.run calls).queues,
        (q.attempts (System.run calls).heap opening).map (·.candidate.feeLevel) = [768, 512]
        ∧ ∀ heap ctx, ∀ a ∈ q.attempts heap ctx, TxQ.InOrder ctx q.feeMetrics.snapshot a)
      ∧ System.initial.attempted (fun _ => 0) (calls ++ [.accept 0 opening]) 0 ≤ retriesAllowed + 1 := by
  have h := System.accept_bounded idsDetermine
  refine ⟨by decide +kernel, fun q hq => ⟨attempts_calls q hq, fun heap ctx => h.1 q heap ctx ?_⟩, h.2 _ 0⟩
  exact ((System.sound_initial.run idsDetermine calls).sound q hq).indexed

end Sample

end TxQueue
