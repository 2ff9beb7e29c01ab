import GoXrpl.TxQueue.Lemmas.Shrink

open List Option TxQueue.TxQ

namespace TxQueue

open State (AccountID)
open Engine (Result)
open Fallible (bind_eq_ok)

structure Submission.Canonical [TxCodec] (s : Submission) : Prop where
  txID : TxCodec.computeTransactionHash s.txn = some s.txID
  account : s.txn.account = some s.account
  seqProxy : s.txn.seqProxyFor = some s.seqProxy

theorem canonicalSubmission_eq_some [TxCodec] {txn parsed : Transaction} {suppliedID id : Hash256}
    (h : canonicalSubmission txn suppliedID suppliedAccount = some (parsed, raw, id, account))
    : TxCodec.computeTransactionHash parsed = some id ∧ parsed.account = some account := by
  obtain ⟨raw', _, h⟩ := bind_eq_some_iff.mp h
  obtain ⟨parsed', _, h⟩ := bind_eq_some_iff.mp h
  obtain ⟨id', hid, h⟩ := bind_eq_some_iff.mp h
  obtain ⟨account', haccount, h⟩ := bind_eq_some_iff.mp h
  split at h
  . cases h
  split at h
  . cases h
  cases h
  exact ⟨hid, haccount⟩

theorem canonical_eq_ok [TxCodec] {ctx : ApplyContext} {suppliedID id : Hash256}
    (hdry : ctx.isDryRun = false)
    (h : canonical ctx txn suppliedID suppliedAccount = .ok (parsed, raw, id, account))
    : TxCodec.computeTransactionHash parsed = some id ∧ parsed.account = some account := by
  unfold canonical at h
  rw [hdry, if_neg Bool.false_ne_true] at h
  split at h
  . cases h
  . next hcanonical =>
    cases h
    exact canonicalSubmission_eq_some hcanonical

theorem submission_eq_ok [TxCodec] (hdry : ctx.isDryRun = false)
    (h : submission ctx txn txID account = .ok s)
    : s.Canonical := by
  obtain ⟨⟨parsed, raw, id, account'⟩, hcanonical, h⟩ := bind_eq_ok h
  obtain ⟨hid, haccount⟩ := canonical_eq_ok hdry hcanonical
  dsimp only at h
  split at h
  . cases h
  obtain ⟨source, hsource, h⟩ := bind_eq_ok h
  obtain ⟨_, _, h⟩ := bind_eq_ok h
  unfold sourceAccount at hsource
  rw [hdry, if_neg Bool.false_ne_true] at hsource
  cases hsource
  split at h
  . cases h
  split at h
  . cases h
  . next seqProxy hseqProxy =>
    cases h
    exact ⟨hid, haccount, hseqProxy⟩

def IdsDetermine [TxCodec] : Prop :=
  ∀ txn txn' id, TxCodec.computeTransactionHash txn = some id →
    TxCodec.computeTransactionHash txn' = some id →
    txn.account = txn'.account ∧ txn.seqProxyFor = txn'.seqProxyFor

structure Candidate.Sourced [TxCodec] (c : Candidate) : Prop where
  origin : ∃ txn, TxCodec.computeTransactionHash txn = some c.txID
    ∧ txn.account = some c.account ∧ txn.seqProxyFor = some c.seqProxy
  unparsed : c.blob = [] → c.txn = none

theorem Submission.Canonical.same_place [TxCodec] (hids : IdsDetermine) {s : Submission}
    (hs : s.Canonical) {d : Candidate} (hd : d.Sourced) (hid : d.txID = s.txID)
    : d.account = s.account ∧ d.seqProxy = s.seqProxy := by
  obtain ⟨txn, hhash, haccount, hsp⟩ := hd.origin
  rw [hid] at hhash
  obtain ⟨hsame, hsame'⟩ := hids txn s.txn s.txID hhash hs.txID
  rw [haccount, hs.account] at hsame
  rw [hsp, hs.seqProxy] at hsame'
  exact ⟨some_inj.mp hsame, some_inj.mp hsame'⟩

namespace TxQ

variable {q : TxQ}

theorem Indexed.shrinks_directApply (hq : q.Indexed) (ctx : ApplyContext) (s : Submission)
    : q.Shrinks (q.directApply ctx s).2 := by
  unfold directApply
  dsimp only
  split
  . exact hq.shrinks.eraseAt _ _
  . exact hq.shrinks

theorem Indexed.shrinks_refused (hq : q.Indexed) (refusal : Refusal)
    : q.Shrinks (q.refused refusal) := by
  unfold refused
  split
  . exact hq.shrinks.congr rfl rfl rfl fun _ _ => rfl
  . exact hq.shrinks

theorem next_noteFailures (h : Heap) (updates : List (Candidate × Result))
    : (noteFailures h updates).next = h.next := by
  induction updates generalizing h with
  | nil => rfl
  | cons u updates ih => exact ih _

/--
What the calls that attempt nothing make of the retries.
-/
structure Lowers (h h' : Heap) : Prop where
  old : ∀ addr < h.next, 0 ≤ (h.progress addr).retriesRemaining →
    0 ≤ (h'.progress addr).retriesRemaining
      ∧ (h'.progress addr).retriesRemaining ≤ (h.progress addr).retriesRemaining
  new : ∀ addr, h.next ≤ addr → addr < h'.next → (h'.progress addr).retriesRemaining = retriesAllowed

namespace Lowers

theorem refl (h : Heap) : Lowers h h where
  old _ _ hpos := ⟨hpos, Int.le_refl _⟩
  new _ hle hlt := absurd hle (Nat.not_le.mpr hlt)

theorem noteFailures (hlowers : Lowers h h') (hnext : h'.next = h.next)
    (updates : List (Candidate × Result))
    : Lowers h (noteFailures h' updates) := by
  induction updates generalizing h' with
  | nil => exact hlowers
  | cons update updates ih =>
    refine ih ⟨?_, fun addr hle hlt => absurd (hnext ▸ hlt) (Nat.not_lt.mpr hle)⟩ hnext
    intro addr haddr hpos
    have hold := hlowers.old addr haddr hpos
    unfold Heap.update noteFailure
    dsimp only
    split
    . dsimp only
      split
      . omega
      . exact hold
    . exact hold

theorem alloc (hlowers : Lowers h h') (hnext : h'.next = h.next) (ctx : ApplyContext)
    : Lowers h (h'.alloc (newProgress ctx)) := by
  unfold Heap.alloc
  constructor
  . intro addr haddr
    dsimp only
    rw [if_neg (by omega)]
    exact hlowers.old addr haddr
  intro addr hle hlt
  dsimp only at hlt ⊢
  rw [if_pos (by omega)]
  rfl

end Lowers

theorem accountQueue_of_candidate (hc : c ∈ (q.accountQueue s).candidates)
    : ∃ aq, q.byAccount.lookup s.account = some aq ∧ c ∈ aq.candidates := by
  unfold accountQueue at hc
  cases haq : q.byAccount.lookup s.account with
  | none =>
    rw [haq] at hc
    cases hc
  | some aq =>
    rw [haq] at hc
    exact ⟨aq, rfl, hc⟩

theorem Indexed.mem_of_preceding (hq : q.Indexed) (hc : c ∈ q.preceding s) : c ∈ q.byFee := by
  have hrelevant := (takeWhile_sublist _).subset hc
  have hsorted := (mem_filter.mp hrelevant).1
  have hmem := (mergeSort_perm _ _).mem_iff.mp hsorted
  obtain ⟨aq, haq, hc⟩ := accountQueue_of_candidate hmem
  obtain ⟨sp, hlookup⟩ := mem_candidates_iff.mp hc
  exact (hq.place_of_mem haq hlookup).1

theorem Indexed.clearQueue [TxCodec] (hq : q.Indexed) (h : Heap) (ctx : ApplyContext)
    (s : Submission) (feeLevel requiredFeeLevel : FeeLevel)
    : q.Shrinks (q.clearQueue h ctx s feeLevel requiredFeeLevel).2.1
        ∧ (q.clearQueue h ctx s feeLevel requiredFeeLevel).2.2.next = h.next
        ∧ Lowers h (q.clearQueue h ctx s feeLevel requiredFeeLevel).2.2
        ∧ ((q.clearQueue h ctx s feeLevel requiredFeeLevel).1 = none →
            (q.clearQueue h ctx s feeLevel requiredFeeLevel).2.1 = q) := by
  have hlowers := Lowers.refl h
  have hsame : q.Shrinks q ∧ h.next = h.next ∧ Lowers h h ∧ (none = (none : Option ApplyResult) → q = q) :=
    ⟨hq.shrinks, rfl, hlowers, fun _ => rfl⟩
  unfold TxQ.clearQueue
  split
  . unfold tryClearAccountQueue
    dsimp only
    split
    . exact hsame
    split
    . exact hsame
    split
    . exact hsame
    split
    . exact hsame
    split
    . exact ⟨hq.shrinks, next_noteFailures _ _, hlowers.noteFailures rfl _, fun _ => rfl⟩
    split
    . exact ⟨hq.shrinks, rfl, hlowers, fun _ => rfl⟩
    refine ⟨?_, rfl, hlowers, nofun⟩
    apply Shrinks.eraseAt
    apply hq.shrinks.foldl_erase
    intro c hc
    exact hq.known c (hq.mem_of_preceding hc)
  . exact hsame

theorem replacingCandidate_eq (q : TxQ) (s : Submission)
    : q.replacingCandidate s = q.candidateAt s.account s.seqProxy := by
  unfold replacingCandidate accountQueue candidateAt
  cases q.byAccount.lookup s.account with
  | none => rfl
  | some aq => rfl

theorem length_erase_lt (hc : c ∈ q.byFee) : (q.erase c).byFee.length < q.byFee.length := by
  rw [byFee_erase]
  exact length_removeByFee_lt (any_same_of_mem hc)

theorem Indexed.makeRoom (hq : q.Indexed) (hroom : q.makeRoom visit s feeLevel = some q')
    : q.Shrinks q' ∧ ((q.replacingCandidate s).isNone = true → q.isFull = true →
        q'.byFee.length < q.byFee.length) := by
  unfold TxQ.makeRoom at hroom
  split at hroom
  . split at hroom
    . cases hroom
    . next lowest hlowest =>
      split at hroom
      . cases hroom
      . next endAccount hend =>
        split at hroom
        . have hmem : lowest ∈ q.byFee := mem_reverse.mp (mem_of_find?_eq_some hlowest)
          have hat := (hq.byAccount _ _ lowest).mpr ⟨hmem, rfl, rfl⟩
          unfold candidateAt at hat
          rw [hend] at hat
          have hsorted : lowest ∈ endAccount.sortedCandidates :=
            (mergeSort_perm _ _).mem_iff.mpr (mem_candidates_iff.mpr ⟨_, hat⟩)
          cases hlast : endAccount.sortedCandidates.getLast? with
          | none =>
            rw [getLast?_eq_none_iff.mp hlast] at hsorted
            cases hsorted
          | some drop =>
            rw [hlast] at hroom
            cases hroom
            have hdrop := hq.mem_of_sorted hend (mem_of_getLast? hlast)
            exact ⟨hq.shrinks.erase (hq.known drop hdrop), fun _ _ => length_erase_lt hdrop⟩
        . cases hroom
  . next hcond =>
    cases hroom
    exact ⟨hq.shrinks, fun hnone hfull => absurd ⟨hnone, hfull⟩ hcond⟩

def cleared (roomy : TxQ) (replaced : Option Candidate) : TxQ := replaced.elim roomy roomy.erase

theorem Indexed.shrinks_cleared (hq : q.Indexed) (hroomy : q.Shrinks roomy) (s : Submission)
    : q.Shrinks (cleared roomy (q.replacingCandidate s)) := by
  cases hreplaced : q.replacingCandidate s with
  | none => exact hroomy
  | some c =>
    rw [replacingCandidate_eq] at hreplaced
    have hmem := ((hq.byAccount _ _ c).mp hreplaced).1
    exact hroomy.erase (hq.known c hmem)

theorem Indexed.place_free (hq : q.Indexed) (hroomy : q.Shrinks roomy)
    (hd : d ∈ (cleared roomy (q.replacingCandidate s)).byFee) (haccount : d.account = s.account)
    : d.seqProxy ≠ s.seqProxy := by
  intro hsp
  have hmem := (hq.shrinks_cleared hroomy s).subset hd
  have hat := (hq.byAccount _ _ d).mpr ⟨hmem, haccount, hsp⟩
  rw [replacingCandidate_eq, hat] at hd
  have hknown := (hq.known d hmem).mono hroomy.subset
  exact ((hroomy.indexed.mem_erase_iff hknown d).mp hd).2 rfl

structure Sound [TxCodec] (q : TxQ) (h : Heap) : Prop where
  indexed : q.Indexed
  sourced : ∀ c ∈ q.byFee, c.Sourced
  allocated : ∀ c ∈ q.byFee, c.addr < h.next

structure Moves [TxCodec] (q : TxQ) (h : Heap) (q' : TxQ) (h' : Heap) : Prop where
  sound : q'.Sound h'
  next : h.next ≤ h'.next
  fresh : ∀ c ∈ q'.byFee, c ∈ q.byFee ∨ h.next ≤ c.addr
  room : q.byFee.length < q'.byFee.length → q.isFull = false

variable {q q' : TxQ}

theorem length_cleared_lt (hq : q.Indexed) (hroom : q.makeRoom visit s feeLevel = some roomy)
    (hfull : q.isFull = true)
    : (cleared roomy (q.replacingCandidate s)).byFee.length < q.byFee.length := by
  obtain ⟨hroomy, hless⟩ := hq.makeRoom hroom
  cases hreplaced : q.replacingCandidate s with
  | none =>
    rw [hreplaced] at hless
    exact hless rfl hfull
  | some c =>
    -- one goes for the one that comes
    rw [replacingCandidate_eq] at hreplaced
    have hmem := ((hq.byAccount _ _ c).mp hreplaced).1
    have hsame : roomy = q := by
      unfold makeRoom at hroom
      rw [replacingCandidate_eq, hreplaced, if_neg (by simp)] at hroom
      exact (some_inj.mp hroom).symm
    rw [hsame]
    exact length_erase_lt hmem

variable [TxCodec]

theorem Sound.moves (hq : q.Sound h) (hshrinks : q.Shrinks q') (hnext : h'.next = h.next)
    : Moves q h q' h' where
  sound :=
    { indexed := hshrinks.indexed
      sourced := fun c hc => hq.sourced c (hshrinks.subset hc)
      allocated := fun c hc => hnext ▸ hq.allocated c (hshrinks.subset hc) }
  next := Nat.le_of_eq hnext.symm
  fresh := fun _ hc => .inl (hshrinks.subset hc)
  room := fun hlt => absurd hshrinks.length_le (Nat.not_le.mpr hlt)

theorem Sound.queueCandidate (hids : IdsDetermine) (hq : q.Sound h) (hs : s.Canonical)
    (visit : List Candidate → List Candidate) (feeLevel : FeeLevel)
    : Moves q h (queueCandidate visit q h ctx s feeLevel).2.1
        (queueCandidate visit q h ctx s feeLevel).2.2 := by
  unfold TxQ.queueCandidate
  split
  . exact hq.moves (hq.indexed.shrinks_refused { result := 0, full := true }) rfl
  . next roomy hroom =>
    have hroomy := (hq.indexed.makeRoom hroom).1
    have hcleared := hq.indexed.shrinks_cleared hroomy s
    have hshorter := length_cleared_lt hq.indexed hroom
    have hplace : ∀ d ∈ (cleared roomy (q.replacingCandidate s)).byFee, d.account = s.account →
        d.seqProxy ≠ s.seqProxy := fun d hd => hq.indexed.place_free hroomy hd
    generalize hq' : cleared roomy (q.replacingCandidate s) = q' at *
    have hnext : ∀ d ∈ q'.byFee, d.addr ≠ h.next := by
      intro d hd
      exact Nat.ne_of_lt (hq.allocated d (hcleared.subset hd))
    show Moves q h ((addToAccount (cleared _ _) _).insertByFee _) _
    rw [hq']
    refine ⟨⟨hcleared.indexed.queueCandidate hnext ?_ hplace, ?_, ?_⟩, Nat.le_succ _, ?_, ?_⟩
    . intro d hd hid
      obtain ⟨haccount, hsp⟩ := hs.same_place hids (hq.sourced d (hcleared.subset hd)) hid
      exact hplace d hd haccount hsp
    . intro d hd
      rcases (mem_insertByFee_iff _ _ d).mp hd with rfl | hd
      . exact ⟨⟨s.txn, hs.txID, hs.account, hs.seqProxy⟩, fun _ => rfl⟩
      . exact hq.sourced d (hcleared.subset hd)
    . intro d hd
      rcases (mem_insertByFee_iff _ _ d).mp hd with rfl | hd
      . exact Nat.lt_succ_self _
      . exact Nat.lt_succ_of_lt (hq.allocated d (hcleared.subset hd))
    . intro d hd
      rcases (mem_insertByFee_iff _ _ d).mp hd with rfl | hd
      . exact .inr (Nat.le_refl _)
      . exact .inl (hcleared.subset hd)
    intro hlonger
    rw [length_insertByFee] at hlonger
    by_contra hfull
    have hlt := hshorter (Bool.not_eq_false _ ▸ hfull)
    have hlength : (q'.addToAccount (newCandidate h ctx s feeLevel)).byFee.length
        = q'.byFee.length := rfl
    omega

theorem Moves.of_next (hmoves : Moves q h' q' h'') (hnext : h'.next = h.next)
    : Moves q h q' h'' where
  sound := hmoves.sound
  next := hnext ▸ hmoves.next
  fresh := hnext ▸ hmoves.fresh
  room := hmoves.room

theorem Sound.enqueue (hids : IdsDetermine) (hq : q.Sound h) (hs : s.Canonical)
    (visit : List Candidate → List Candidate) (requiredFeeLevel : FeeLevel)
    : Moves q h (enqueue visit q h ctx s requiredFeeLevel).2.1
        (enqueue visit q h ctx s requiredFeeLevel).2.2
      ∧ Lowers h (enqueue visit q h ctx s requiredFeeLevel).2.2 := by
  unfold TxQ.enqueue
  split
  . exact ⟨hq.moves (hq.indexed.shrinks_refused _) rfl, .refl h⟩
  . next feeLevel _ =>
    have hcleared := hq.indexed.clearQueue h ctx s feeLevel requiredFeeLevel
    split
    . next result q' h' hclear =>
      rw [hclear] at hcleared
      exact ⟨hq.moves hcleared.1 hcleared.2.1, hcleared.2.2.1⟩
    . next q' h' hclear =>
      rw [hclear] at hcleared
      obtain ⟨hshrinks, hnext, hlowers, hsame⟩ := hcleared
      have hq' := hsame rfl
      subst hq'
      have hsound := (hq.moves hshrinks hnext).sound
      split
      . exact ⟨hq.moves (hsound.indexed.shrinks_refused _) hnext, hlowers⟩
      refine ⟨(hsound.queueCandidate hids hs visit feeLevel).of_next hnext, ?_⟩
      unfold TxQ.queueCandidate
      split
      . exact hlowers
      . exact hlowers.alloc hnext ctx

theorem Sound.applySubmission (hids : IdsDetermine) (hq : q.Sound h)
    (hs : ctx.isDryRun = false → s.Canonical) (visit : List Candidate → List Candidate)
    : Moves q h (applySubmission visit q h ctx s).2.1
        (applySubmission visit q h ctx s).2.2
      ∧ Lowers h (applySubmission visit q h ctx s).2.2 := by
  unfold TxQ.applySubmission
  dsimp only
  split
  . exact ⟨hq.moves hq.indexed.shrinks rfl, .refl h⟩
  split
  . exact ⟨hq.moves (hq.indexed.shrinks_directApply ctx s) rfl, .refl h⟩
  split
  . exact ⟨hq.moves hq.indexed.shrinks rfl, .refl h⟩
  . next hdry => exact hq.enqueue hids (hs (eq_false_of_ne_true hdry)) visit _

theorem Sound.apply (hids : IdsDetermine) (hq : q.Sound h) (visit : List Candidate → List Candidate)
    (ctx : ApplyContext) (txn : Transaction) (txID : Hash256) (account : AccountID)
    : Moves q h (apply visit q h ctx txn txID account).2.1
        (apply visit q h ctx txn txID account).2.2
      ∧ Lowers h (apply visit q h ctx txn txID account).2.2 := by
  unfold TxQ.apply
  split
  . exact ⟨hq.moves hq.indexed.shrinks rfl, .refl h⟩
  . next s hs => exact hq.applySubmission hids (fun hdry => submission_eq_ok hdry hs) visit

end TxQ

end TxQueue
