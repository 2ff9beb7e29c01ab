import GoXrpl.TxQueue.Impl.Accept
import GoXrpl.TxQueue.Lemmas.Index
import Mathlib.Data.List.Perm.Basic

open List Assoc

namespace TxQueue

open State (AccountID)

namespace TxQ

variable {q : TxQ}

def held (q : TxQ) : List Candidate := q.byAccount.entries.flatMap (·.2.candidates)

variable {aq : AccountQueue}

theorem mem_candidates_iff : c ∈ aq.candidates ↔ ∃ sp, aq.transactions.lookup sp = some c := by
  unfold AccountQueue.candidates
  rw [mem_map]
  constructor
  . rintro ⟨⟨sp, d⟩, hmem, rfl⟩
    exact ⟨sp, mem_entries_iff.mp hmem⟩
  rintro ⟨sp, hlookup⟩
  exact ⟨⟨sp, c⟩, mem_entries_iff.mpr hlookup, rfl⟩

theorem mem_held_iff : c ∈ q.held ↔ ∃ account sp, q.candidateAt account sp = some c := by
  unfold held candidateAt
  rw [mem_flatMap]
  constructor
  . rintro ⟨⟨account, aq⟩, hmem, hc⟩
    obtain ⟨sp, hlookup⟩ := mem_candidates_iff.mp hc
    refine ⟨account, sp, ?_⟩
    rw [mem_entries_iff.mp hmem]
    exact hlookup
  rintro ⟨account, sp, hat⟩
  obtain ⟨aq, haq, hlookup⟩ := Option.bind_eq_some_iff.mp hat
  exact ⟨⟨account, aq⟩, mem_entries_iff.mpr haq, mem_candidates_iff.mpr ⟨sp, hlookup⟩⟩

theorem Indexed.mem_held_iff (h : q.Indexed) : c ∈ q.held ↔ c ∈ q.byFee := by
  rw [TxQ.mem_held_iff]
  constructor
  . rintro ⟨account, sp, hat⟩
    exact ((h.byAccount account sp c).mp hat).1
  intro hc
  exact ⟨_, _, (h.byAccount _ _ c).mpr ⟨hc, rfl, rfl⟩⟩

theorem inAccountOrder_perm (q : TxQ) : q.inAccountOrder.Perm q.held := by
  apply List.Perm.flatMap
  . exact mergeSort_perm _ _
  intro e _
  exact mergeSort_perm _ _

theorem Indexed.place_of_mem (h : q.Indexed)
    (haq : q.byAccount.lookup account = some aq) (hlookup : aq.transactions.lookup sp = some c)
    : c ∈ q.byFee ∧ c.account = account ∧ c.seqProxy = sp := by
  apply (h.byAccount account sp c).mp
  unfold candidateAt
  rw [haq]
  exact hlookup

theorem Indexed.nodup_candidates (h : q.Indexed) (haq : q.byAccount.lookup account = some aq)
    : aq.candidates.Nodup := by
  have hkeys : aq.candidates.map (·.seqProxy) = aq.transactions.keys := by
    unfold AccountQueue.candidates AList.keys keys
    rw [map_map]
    apply map_congr_left
    rintro ⟨sp, c⟩ hmem
    exact (h.place_of_mem haq (mem_entries_iff.mp hmem)).2.2
  apply List.Nodup.of_map (·.seqProxy)
  rw [hkeys]
  exact aq.transactions.keys_nodup

theorem Indexed.nodup_held (h : q.Indexed) : q.held.Nodup := by
  unfold held
  rw [nodup_flatMap]
  constructor
  . rintro ⟨account, aq⟩ hmem
    exact h.nodup_candidates (mem_entries_iff.mp hmem)
  have hkeys : q.byAccount.entries.Pairwise fun a b => a.1 ≠ b.1 :=
    pairwise_map.mp q.byAccount.nodupKeys
  apply hkeys.imp_of_mem
  rintro ⟨account, aq⟩ ⟨account', aq'⟩ hmem hmem' hne c hc hc'
  obtain ⟨sp, hlookup⟩ := mem_candidates_iff.mp hc
  obtain ⟨sp', hlookup'⟩ := mem_candidates_iff.mp hc'
  have haccount := (h.place_of_mem (mem_entries_iff.mp hmem) hlookup).2.1
  have haccount' := (h.place_of_mem (mem_entries_iff.mp hmem') hlookup').2.1
  exact hne (haccount.symm.trans haccount')

structure Filled (q q' : TxQ) (cs : List Candidate) : Prop where
  ranked : q'.Ranked
  mem_iff : ∀ d, d ∈ q'.byFee ↔ d ∈ cs ∨ d ∈ q.byFee
  length : q'.byFee.length = cs.length + q.byFee.length
  byAccount : q'.byAccount = q.byAccount

theorem Ranked.foldl_insertByFee (h : q.Ranked)
    (hids : (cs.map (·.txID)).Nodup) (hnew : ∀ c ∈ cs, ∀ d ∈ q.byFee, d.txID ≠ c.txID)
    : Filled q (cs.foldl TxQ.insertByFee q) cs := by
  induction cs generalizing q with
  | nil => exact ⟨h, by simp, by simp, rfl⟩
  | cons c cs ih =>
    rw [map_cons, nodup_cons] at hids
    have hinsert := h.insertByFee (hnew c mem_cons_self)
    have hrest := ih hinsert hids.2 (by
      intro d hd e he
      rcases (mem_insertByFee_iff q c e).mp he with rfl | he
      . intro heq
        exact hids.1 (heq ▸ mem_map_of_mem hd)
      . exact hnew d (mem_cons_of_mem _ hd) e he)
    refine ⟨hrest.ranked, ?_, ?_, hrest.byAccount⟩
    . intro d
      rw [foldl_cons, hrest.mem_iff, mem_insertByFee_iff, mem_cons, or_left_comm, or_assoc]
    rw [foldl_cons, hrest.length, length_insertByFee, length_cons]
    omega

theorem Indexed.filled_rebuildByFee (h : q.Indexed) (parentHash : Hash256)
    : Filled { q with parentHash, byFee := [], byID := ∅ }
        (TxQ.rebuildByFee { q with parentHash }) q.inAccountOrder := by
  have hempty : Ranked { q with parentHash, byFee := [], byID := ∅ } := by
    refine ⟨nodup_nil, List.Pairwise.nil, ?_⟩
    intro id c
    constructor
    . intro hlookup
      cases hlookup
    rintro ⟨hc, _⟩
    cases hc
  apply hempty.foldl_insertByFee
  . apply List.Nodup.map_on
    . intro c hc d hd hid
      have hmem : ∀ e ∈ q.inAccountOrder, e ∈ q.byFee := by
        intro e he
        exact h.mem_held_iff.mp ((inAccountOrder_perm q).mem_iff.mp he)
      exact h.eq_of_txID (hmem c hc) (hmem d hd) hid
    . exact (inAccountOrder_perm q).nodup_iff.mpr h.nodup_held
  intro c _ d hd
  cases hd

theorem Indexed.mem_rebuildByFee_iff (h : q.Indexed) (parentHash : Hash256) (c : Candidate)
    : c ∈ (TxQ.rebuildByFee { q with parentHash }).byFee ↔ c ∈ q.byFee := by
  rw [(h.filled_rebuildByFee parentHash).mem_iff, (inAccountOrder_perm q).mem_iff, h.mem_held_iff]
  simp

theorem Indexed.rebuildByFee (h : q.Indexed) (parentHash : Hash256)
    : (TxQ.rebuildByFee { q with parentHash }).Indexed := by
  have hfilled := h.filled_rebuildByFee parentHash
  refine ⟨hfilled.ranked, ?_, ?_⟩
  . intro account sp c
    rw [h.mem_rebuildByFee_iff, ← h.byAccount]
    unfold candidateAt
    rw [hfilled.byAccount]
  intro c hc d hd
  rw [h.mem_rebuildByFee_iff] at hc hd
  exact h.known c hc d hd

structure Shrinks (q q' : TxQ) : Prop where
  indexed : q'.Indexed
  subset : q'.byFee ⊆ q.byFee

theorem Indexed.shrinks (h : q.Indexed) : q.Shrinks q where
  indexed := h
  subset := List.Subset.refl _

namespace Shrinks

variable (h : q.Shrinks q')

include h

theorem trans (h' : q'.Shrinks q'') : q.Shrinks q'' where
  indexed := h'.indexed
  subset := List.Subset.trans h'.subset h.subset

theorem length_le : q'.byFee.length ≤ q.byFee.length :=
  (subperm_of_subset h.indexed.nodup h.subset).length_le

theorem erase (hknown : c.Known q.byFee) : q.Shrinks (q'.erase c) := by
  have hknown' := hknown.mono h.subset
  refine ⟨h.indexed.erase hknown', ?_⟩
  intro d hd
  exact h.subset ((h.indexed.mem_erase_iff hknown' d).mp hd).1

theorem foldl_erase {cs : List Candidate} (hknown : ∀ c ∈ cs, c.Known q.byFee)
    : q.Shrinks (cs.foldl TxQ.erase q') := by
  induction cs generalizing q' with
  | nil => exact h
  | cons c cs ih =>
    apply ih
    . exact h.erase (hknown c mem_cons_self)
    intro d hd
    exact hknown d (mem_cons_of_mem _ hd)

theorem eraseAt (account : AccountID) (sp : SeqProxy) : q.Shrinks (q'.eraseAt account sp) := by
  unfold TxQ.eraseAt
  split
  . exact h
  . next c hc =>
    have hmem := ((h.indexed.byAccount account sp c).mp hc).1
    exact h.trans (h.indexed.shrinks.erase (h.indexed.known c hmem))

theorem congr (hbyFee : q''.byFee = q'.byFee) (hbyID : q''.byID = q'.byID)
    (hparent : q''.parentHash = q'.parentHash)
    (hat : ∀ account sp, q''.candidateAt account sp = q'.candidateAt account sp)
    : q.Shrinks q'' := by
  refine ⟨h.indexed.congr hbyFee hbyID hparent hat, ?_⟩
  rw [hbyFee]
  exact h.subset

theorem updateAccount (account : AccountID) (hf : ∀ aq, (f aq).transactions = aq.transactions)
    : q.Shrinks (q'.updateAccount account f) := by
  apply h.congr
  . exact byFee_updateAccount _ _ _
  . exact byID_updateAccount _ _ _
  . exact parentHash_updateAccount _ _ _
  intro account' sp
  unfold TxQ.updateAccount
  split
  . rfl
  . next aq haq =>
    show ((q'.byAccount.insert _ _).lookup account').bind _ = _
    rw [candidateAt_insert]
    split
    . next heq =>
      unfold candidateAt
      rw [hf, heq, haq]
      rfl
    . rfl

theorem eraseAndAdvance (idx : Nat) (hmem : c ∈ q'.byFee)
    : q.Shrinks (q'.eraseAndAdvance idx c).1 ∧ c ∉ (q'.eraseAndAdvance idx c).1.byFee := by
  have hknown := h.indexed.known c hmem
  have herase : q.Shrinks (q'.erase c) ∧ c ∉ (q'.erase c).byFee := by
    refine ⟨h.trans (h.indexed.shrinks.erase hknown), ?_⟩
    rw [h.indexed.mem_erase_iff hknown]
    exact fun hc => hc.2 rfl
  have hat := (h.indexed.byAccount _ _ c).mpr ⟨hmem, rfl, rfl⟩
  unfold TxQ.eraseAndAdvance
  split
  . next hnone =>
    unfold candidateAt at hat
    rw [hnone] at hat
    cases hat
  split
  . exact herase
  split
  . exact herase
  . exact herase

end Shrinks

theorem lookup_dropEmptyAccounts (m : AList fun _ : AccountID => AccountQueue) (account : AccountID)
    (aq : AccountQueue)
    : (dropEmptyAccounts m).lookup account = some aq
        ↔ m.lookup account = some aq ∧ aq.empty = false := by
  rw [← mem_entries_iff, ← mem_entries_iff]
  show _ ∈ m.entries.filter _ ↔ _
  rw [mem_filter, decide_eq_true_iff]

theorem candidateAt_dropEmptyAccounts (q : TxQ) (account : AccountID) (sp : SeqProxy)
    : candidateAt { q with byAccount := dropEmptyAccounts q.byAccount } account sp
        = q.candidateAt account sp := by
  apply Option.ext
  intro c
  unfold candidateAt
  rw [Option.bind_eq_some_iff, Option.bind_eq_some_iff]
  constructor
  . rintro ⟨aq, haq, hlookup⟩
    exact ⟨aq, ((lookup_dropEmptyAccounts _ _ _).mp haq).1, hlookup⟩
  rintro ⟨aq, haq, hlookup⟩
  refine ⟨aq, (lookup_dropEmptyAccounts _ _ _).mpr ⟨haq, ?_⟩, hlookup⟩
  have hentry := mem_entries_iff.mpr hlookup
  unfold AccountQueue.empty AccountQueue.count
  rw [decide_eq_false_iff_not]
  exact Nat.ne_of_gt (length_pos_of_mem hentry)

theorem Shrinks.foldl_dropPenalty (h : q.Shrinks q') (cs : List Candidate)
    : q.Shrinks (cs.foldl
        (fun q c => q.updateAccount c.account ({ · with dropPenalty := true })) q') := by
  induction cs generalizing q' with
  | nil => exact h
  | cons c cs ih =>
    apply ih
    exact h.updateAccount c.account fun _ => rfl

theorem Indexed.shrinks_processClosedLedger (h : q.Indexed) (ctx : ClosedLedgerContext)
    (timeLeap : Bool)
    : q.Shrinks (q.processClosedLedger ctx timeLeap) := by
  unfold processClosedLedger
  dsimp only
  generalize hmetrics : (if timeLeap = true then _ else _) = q'
  have hbyFee : q'.byFee = q.byFee := by
    rw [← hmetrics]
    split
    . rfl
    . rfl
  have hstart : q.Shrinks q' := by
    apply h.shrinks.congr hbyFee
    . rw [← hmetrics]
      split
      . rfl
      . rfl
    . rw [← hmetrics]
      split
      . rfl
      . rfl
    intro account sp
    rw [← hmetrics]
    split
    . rfl
    . rfl
  rw [hbyFee]
  generalize hremove : q.byFee.filter (expired ctx.getLedgerSequence) = toRemove
  have hknown : ∀ c ∈ toRemove, c.Known q.byFee := by
    intro c hc
    rw [← hremove] at hc
    exact h.known c (mem_filter.mp hc).1
  have herased := (hstart.foldl_dropPenalty toRemove).foldl_erase hknown
  exact herased.congr rfl rfl rfl (candidateAt_dropEmptyAccounts _)

theorem Indexed.mem_of_sorted (h : q.Indexed)
    (haq : q.byAccount.lookup account = some aq) (hc : c ∈ aq.sortedCandidates)
    : c ∈ q.byFee := by
  have hmem : c ∈ aq.candidates := (mergeSort_perm _ _).mem_iff.mp hc
  obtain ⟨sp, hlookup⟩ := mem_candidates_iff.mp hmem
  exact (h.place_of_mem haq hlookup).1

theorem transactions_penalize (retries : Int) (aq : AccountQueue)
    : (penalize retries aq).transactions = aq.transactions := by
  unfold penalize
  split
  . rfl
  . rfl

theorem Indexed.shrinks_dropLast (h : q.Indexed) (haq : q.byAccount.lookup c.account = some aq) (i : Nat)
    : q.Shrinks (q.dropLastForAccount aq c i).1 := by
  unfold dropLastForAccount
  split
  . exact h.shrinks
  . next dropTarget hlast =>
    split
    . exact h.shrinks
    . exact h.shrinks.erase (h.known dropTarget (h.mem_of_sorted haq (mem_of_getLast? hlast)))

structure Turned (ctx : AcceptContext) (snapshot : FeeMetricsSnapshot) (s : Accepting) (c : Candidate)
    (s' : Accepting) : Prop where
  shrinks : s.q.Shrinks s'.q
  next : s'.h.next = s.h.next
  heap : (s'.attempts = s.attempts ∧ s'.h = s.h)
    ∨ (s'.attempts = s.attempts ++ [⟨s.q, s.turn, c⟩] ∧ (∃ aq, Allowed ctx snapshot s c aq)
      ∧ Touches c s.h s'.h ∧ (c ∈ s'.q.byFee → Spends s c s'.h))

theorem Indexed.turned (h : s.q.Indexed) (hc : c ∈ s.q.byFee) (hturn : Turn ctx snapshot s c s')
    : Turned ctx snapshot s c s' := by
  cases hturn with
  | passed hlog hh hpassed =>
    refine ⟨?_, congrArg _ hh, .inl ⟨hlog, hh⟩⟩
    cases hpassed with
    | erased hq =>
      rw [hq]
      exact h.shrinks.erase (h.known c hc)
    | skipped hq _ =>
      rw [hq]
      exact h.shrinks
  | @tried aq hlog hallowed htried =>
    cases htried with
    | @removed q hq hq' hh =>
      have hpenalized : s.q.Shrinks q ∧ q.byFee = s.q.byFee := by
        rcases hq with rfl | ⟨retries, rfl⟩
        . exact ⟨h.shrinks, rfl⟩
        . refine ⟨h.shrinks.updateAccount c.account (transactions_penalize _), byFee_updateAccount _ _ _⟩
      rw [← hpenalized.2] at hc
      obtain ⟨hshrinks, hgone⟩ := hpenalized.1.eraseAndAdvance s.i hc
      rw [← hq'] at hshrinks hgone
      exact ⟨hshrinks, hh.next, .inr ⟨hlog, ⟨aq, hallowed⟩, hh, fun hmem => absurd hmem hgone⟩⟩
    | kept hq _ hh =>
      refine ⟨?_, hh.next, .inr ⟨hlog, ⟨aq, hallowed⟩, hh.toTouches, fun _ => hh⟩⟩
      rw [hq]
      exact h.shrinks
    | dropped hq _ hh =>
      refine ⟨?_, hh.next, .inr ⟨hlog, ⟨aq, hallowed⟩, hh.toTouches, fun _ => hh⟩⟩
      rw [hq]
      exact h.shrinks_dropLast hallowed.account s.i

structure Accepting.Within (q : TxQ) (next : Nat) (s : Accepting) : Prop where
  shrinks : q.Shrinks s.q
  next : s.h.next = next

variable {next : Nat}

namespace Accepting.Within

variable [TxCodec]

theorem acceptTurn (h : s.Within q next) (hc : c ∈ s.q.byFee)
    (hturn : TxQ.acceptTurn ctx snapshot s c = some s')
    : s'.Within q next := by
  have hturned := h.shrinks.indexed.turned hc (turn_acceptTurn hturn)
  exact ⟨h.shrinks.trans hturned.shrinks, hturned.next.trans h.next⟩

theorem acceptLoop (h : s.Within q next) : (TxQ.acceptLoop ctx snapshot s).Within q next := by
  fun_induction TxQ.acceptLoop ctx snapshot s with
  | case1 s hi hturn => exact h
  | case2 s hi s' hturn ih => exact ih (h.acceptTurn (getElem_mem hi) hturn)
  | case3 s hi => exact h

end Accepting.Within

theorem Indexed.shrinks_accept [TxCodec] (h : q.Indexed) (heap : Heap) (ctx : AcceptContext)
    : q.Shrinks (acceptLoop ctx q.feeMetrics.snapshot (q.start heap)).q
      ∧ (acceptLoop ctx q.feeMetrics.snapshot (q.start heap)).q.Shrinks (q.accept heap ctx).2.1
      ∧ (q.accept heap ctx).2.2.next = heap.next := by
  have hstart : (q.start heap).Within q heap.next := ⟨h.shrinks, rfl⟩
  have hloop : (acceptLoop ctx q.feeMetrics.snapshot _).Within q heap.next := hstart.acceptLoop
  refine ⟨hloop.shrinks, ?_, hloop.next⟩
  unfold accept
  dsimp only
  split
  . refine ⟨hloop.shrinks.indexed.rebuildByFee _, ?_⟩
    intro c hc
    exact (hloop.shrinks.indexed.mem_rebuildByFee_iff _ c).mp hc
  . exact hloop.shrinks.indexed.shrinks

end TxQ

end TxQueue
