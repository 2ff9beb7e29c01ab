import GoXrpl.TxQueue.Impl.Queue

open List AList

namespace TxQueue

open State (AccountID)
open Sorting (StrictWeak)
open Search (SortedBy)

theorem strictWeak_candidateLess (parentHash : Hash256)
    : StrictWeak (candidateLess parentHash) := by
  have hlex := StrictWeak.lex (fun c : Candidate => -(c.feeLevel.toNat : Int))
    (StrictWeak.of_key fun c : Candidate => xorHash c.txID parentHash)
  have heq : (fun a b : Candidate =>
      if -(a.feeLevel.toNat : Int) ≠ -(b.feeLevel.toNat : Int) then
        decide (-(a.feeLevel.toNat : Int) < -(b.feeLevel.toNat : Int))
      else decide (xorHash a.txID parentHash < xorHash b.txID parentHash))
      = candidateLess parentHash := by
    funext a b
    unfold candidateLess
    have hne : -(a.feeLevel.toNat : Int) ≠ -(b.feeLevel.toNat : Int) ↔ a.feeLevel ≠ b.feeLevel := by
      rw [ne_eq, ne_eq, ← UInt64.toNat_inj]
      omega
    have hlt : -(a.feeLevel.toNat : Int) < -(b.feeLevel.toNat : Int) ↔ a.feeLevel > b.feeLevel := by
      rw [gt_iff_lt, UInt64.lt_iff_toNat_lt]
      omega
    simp only [hne, hlt]
  rw [← heq]
  exact hlex

def TxQ.candidateAt (q : TxQ) (account : AccountID) (seqProxy : SeqProxy) : Option Candidate :=
  (q.byAccount.lookup account).bind (·.transactions.lookup seqProxy)

def Candidate.Known (c : Candidate) (l : List Candidate) : Prop := ∀ d ∈ l, d.addr = c.addr → d = c

theorem Candidate.Known.mono {c : Candidate} (h : c.Known l) (hsub : l' ⊆ l)
    : c.Known l' := by
  intro d hd
  exact h d (hsub hd)

structure TxQ.Ranked (q : TxQ) : Prop where
  nodup : q.byFee.Nodup
  sorted : SortedBy (candidateLess q.parentHash) q.byFee
  byID : ∀ id c, q.byID.lookup id = some c ↔ c ∈ q.byFee ∧ c.txID = id

structure TxQ.Indexed (q : TxQ) : Prop extends q.Ranked where
  byAccount : ∀ account seqProxy c, q.candidateAt account seqProxy = some c
    ↔ c ∈ q.byFee ∧ c.account = account ∧ c.seqProxy = seqProxy
  known : ∀ c ∈ q.byFee, c.Known q.byFee

namespace TxQ

variable {q : TxQ} {c : Candidate}

theorem Ranked.eq_of_txID (h : q.Ranked) (hc : c ∈ q.byFee) (hd : d ∈ q.byFee)
    (hid : c.txID = d.txID)
    : c = d := by
  have hlookup := (h.byID c.txID c).mpr ⟨hc, rfl⟩
  rw [(h.byID c.txID d).mpr ⟨hd, hid.symm⟩] at hlookup
  exact (Option.some_inj.mp hlookup).symm

theorem mem_eraseP_iff (hnodup : l.Nodup) (hknown : c.Known l) (d : Candidate)
    : d ∈ l.eraseP (·.same c) ↔ d ∈ l ∧ d ≠ c := by
  by_cases hc : c ∈ l
  . obtain ⟨e, front, back, hfront, he, hl, herase⟩ :=
      exists_of_eraseP (p := (·.same c)) hc (decide_eq_true rfl)
    have hmem : e ∈ l := by simp [hl]
    have heq : e = c := hknown e hmem (of_decide_eq_true he)
    subst heq
    rw [herase]
    rw [hl, nodup_middle, nodup_cons] at hnodup
    rw [hl, mem_append, mem_append, mem_cons]
    constructor
    . intro hd
      refine ⟨hd.imp_right .inr, ?_⟩
      rintro rfl
      exact hnodup.1 (mem_append.mpr hd)
    rintro ⟨hd | rfl | hd, hne⟩
    . exact .inl hd
    . exact absurd rfl hne
    . exact .inr hd
  rw [eraseP_of_forall_not]
  . constructor
    . intro hd
      exact ⟨hd, fun heq => hc (heq ▸ hd)⟩
    . exact And.left
  intro d hd hsame
  exact hc (hknown d hd (of_decide_eq_true hsame) ▸ hd)

theorem mem_removeByFee_iff (hnodup : q.byFee.Nodup) (hknown : c.Known q.byFee) (d : Candidate)
    : d ∈ (q.removeByFee c).byFee ↔ d ∈ q.byFee ∧ d ≠ c := by
  unfold removeByFee
  split
  . exact mem_eraseP_iff hnodup hknown d
  . next hany =>
    constructor
    . intro hd
      refine ⟨hd, ?_⟩
      rintro rfl
      exact hany (any_eq_true.mpr ⟨d, hd, decide_eq_true rfl⟩)
    . exact And.left

theorem sublist_removeByFee (q : TxQ) (c : Candidate)
    : (q.removeByFee c).byFee.Sublist q.byFee := by
  unfold removeByFee
  split
  . exact eraseP_sublist
  . exact List.Sublist.refl _

theorem lookup_eraseWhen_same_iff [DecidableEq K]
    (hknown : ∀ k d, m.lookup k = some d → d.addr = c.addr → d = c)
    (hown : ∀ k, m.lookup k = some c → k = key) (k : K) (d : Candidate)
    : (Assoc.eraseWhen (·.same c) key m).lookup k = some d ↔ m.lookup k = some d ∧ d ≠ c := by
  rw [Assoc.lookup_eraseWhen_iff]
  constructor
  . rintro ⟨hd, hother⟩
    refine ⟨hd, ?_⟩
    rintro rfl
    have hsame := hother (hown k hd)
    unfold Candidate.same at hsame
    rw [decide_eq_false_iff_not] at hsame
    exact hsame rfl
  rintro ⟨hd, hne⟩
  refine ⟨hd, fun _ => ?_⟩
  apply decide_eq_false
  intro haddr
  exact hne (hknown k d hd haddr)

theorem candidateAt_insert (m : AList fun _ : AccountID => AccountQueue) (account : AccountID)
    (aq : AccountQueue) (account' : AccountID) (seqProxy : SeqProxy)
    : ((m.insert account aq).lookup account').bind (·.transactions.lookup seqProxy)
        = if account' = account then aq.transactions.lookup seqProxy
          else (m.lookup account').bind (·.transactions.lookup seqProxy) := by
  split
  . next heq =>
    subst heq
    rw [lookup_insert]
    rfl
  . next hne => rw [lookup_insert_ne hne]

theorem candidateAt_removeCandidate_iff
    (hknown : ∀ account sp d, q.candidateAt account sp = some d → d.addr = c.addr → d = c)
    (hown : ∀ account sp, q.candidateAt account sp = some c → account = c.account ∧ sp = c.seqProxy)
    (account : AccountID) (sp : SeqProxy) (d : Candidate)
    : (q.updateAccount c.account (·.removeCandidate c)).candidateAt account sp = some d
        ↔ q.candidateAt account sp = some d ∧ d ≠ c := by
  unfold updateAccount
  split
  . next hnone =>
    constructor
    . intro hd
      refine ⟨hd, ?_⟩
      rintro rfl
      rw [(hown account sp hd).1] at hd
      unfold candidateAt at hd
      rw [hnone] at hd
      cases hd
    . exact And.left
  . next aq haq =>
    have hat (sp : SeqProxy) : aq.transactions.lookup sp = q.candidateAt c.account sp := by
      unfold candidateAt
      rw [haq]
      rfl
    show (((q.byAccount.insert _ _).lookup account).bind _) = some d ↔ _
    rw [candidateAt_insert]
    split
    . next heq =>
      unfold AccountQueue.removeCandidate
      rw [lookup_eraseWhen_same_iff, hat, heq]
      . intro sp d hd
        rw [hat] at hd
        exact hknown _ _ _ hd
      intro sp hd
      rw [hat] at hd
      exact (hown _ _ hd).2
    . next hne =>
      constructor
      . intro hd
        refine ⟨hd, ?_⟩
        rintro rfl
        exact hne (hown account sp hd).1
      . exact And.left

namespace Indexed

theorem congr {q' : TxQ} (h : q.Indexed) (hbyFee : q'.byFee = q.byFee) (hbyID : q'.byID = q.byID)
    (hparent : q'.parentHash = q.parentHash)
    (hat : ∀ account sp, q'.candidateAt account sp = q.candidateAt account sp)
    : q'.Indexed := by
  refine ⟨⟨?_, ?_, ?_⟩, ?_, ?_⟩
  . rw [hbyFee]
    exact h.nodup
  . rw [hbyFee, hparent]
    exact h.sorted
  . rw [hbyFee, hbyID]
    exact h.byID
  . intro account sp c
    rw [hbyFee, hat]
    exact h.byAccount account sp c
  rw [hbyFee]
  exact h.known

variable (h : q.Indexed) (hknown : c.Known q.byFee)

include h hknown

theorem lookup_byID_erase_iff (id : Hash256) (d : Candidate)
    : (q.erase c).byID.lookup id = some d ↔ q.byID.lookup id = some d ∧ d ≠ c := by
  have hdrop (m : AList fun _ : Hash256 => Candidate)
      (hm : ∀ id d, m.lookup id = some d → q.byID.lookup id = some d) (id : Hash256) (d : Candidate)
      : (dropID m c).lookup id = some d ↔ m.lookup id = some d ∧ d ≠ c := by
    apply lookup_eraseWhen_same_iff
    . intro id d hd
      exact hknown d ((h.byID id d).mp (hm id d hd)).1
    intro id hd
    exact ((h.byID id c).mp (hm id c hd)).2.symm
  have hfirst := hdrop q.byID fun _ _ hd => hd
  rw [TxQ.byID_erase]
  unfold removeByFee
  split
  . dsimp only
    rw [hdrop _ (fun id d hd => ((hfirst id d).mp hd).1), hfirst, and_assoc, and_self]
  . exact hfirst id d

theorem candidateAt_erase_iff (account : AccountID) (sp : SeqProxy) (d : Candidate)
    : (q.erase c).candidateAt account sp = some d ↔ q.candidateAt account sp = some d ∧ d ≠ c := by
  have hat (account : AccountID) (sp : SeqProxy)
      : (q.removeByFee c).candidateAt account sp = q.candidateAt account sp := by
    unfold removeByFee
    split
    . rfl
    . rfl
  rw [← hat]
  apply candidateAt_removeCandidate_iff
  . intro account sp d hd
    rw [hat] at hd
    exact hknown d ((h.byAccount account sp d).mp hd).1
  intro account sp hd
  rw [hat] at hd
  have hplace := ((h.byAccount account sp c).mp hd).2
  exact ⟨hplace.1.symm, hplace.2.symm⟩

theorem mem_erase_iff (d : Candidate) : d ∈ (q.erase c).byFee ↔ d ∈ q.byFee ∧ d ≠ c := by
  rw [byFee_erase]
  exact mem_removeByFee_iff h.nodup hknown d

theorem erase : (q.erase c).Indexed := by
  have hsublist : (q.erase c).byFee.Sublist q.byFee := by
    rw [byFee_erase]
    exact sublist_removeByFee q c
  refine ⟨⟨h.nodup.sublist hsublist, ?_, ?_⟩, ?_, ?_⟩
  . rw [parentHash_erase]
    exact h.sorted.sublist hsublist
  . intro id d
    rw [h.lookup_byID_erase_iff hknown, h.mem_erase_iff hknown, h.byID, and_right_comm]
  . intro account sp d
    rw [h.candidateAt_erase_iff hknown, h.mem_erase_iff hknown, h.byAccount, and_right_comm]
  intro d hd e he
  exact h.known d (hsublist.subset hd) e (hsublist.subset he)

end Indexed

theorem Ranked.insertByFee (h : q.Ranked) (hid : ∀ d ∈ q.byFee, d.txID ≠ c.txID)
    : (q.insertByFee c).Ranked := by
  have hperm := Search.insert_perm c q.byFee (q.findInsertPosition c)
  refine ⟨?_, ?_, ?_⟩
  . apply hperm.nodup_iff.mpr
    rw [nodup_cons]
    exact ⟨fun hc => hid c hc rfl, h.nodup⟩
  . exact Search.sortedBy_insert (strictWeak_candidateLess _) h.sorted c
  intro id d
  show (q.byID.insert c.txID c).lookup id = some d
    ↔ d ∈ q.byFee.take _ ++ c :: q.byFee.drop _ ∧ d.txID = id
  rw [hperm.mem_iff, mem_cons]
  by_cases heq : id = c.txID
  . subst heq
    rw [lookup_insert, Option.some_inj]
    constructor
    . rintro rfl
      exact ⟨.inl rfl, rfl⟩
    rintro ⟨rfl | hd, hsame⟩
    . rfl
    . exact absurd hsame (hid d hd)
  rw [lookup_insert_ne heq, h.byID]
  constructor
  . rintro ⟨hd, rfl⟩
    exact ⟨.inr hd, rfl⟩
  rintro ⟨rfl | hd, rfl⟩
  . exact absurd rfl heq
  . exact ⟨hd, rfl⟩

theorem mem_insertByFee_iff (q : TxQ) (c d : Candidate)
    : d ∈ (q.insertByFee c).byFee ↔ d = c ∨ d ∈ q.byFee := by
  have hperm := Search.insert_perm c q.byFee (q.findInsertPosition c)
  exact hperm.mem_iff.trans mem_cons

theorem length_insertByFee (q : TxQ) (c : Candidate)
    : (q.insertByFee c).byFee.length = q.byFee.length + 1 :=
  (Search.insert_perm c q.byFee (q.findInsertPosition c)).length_eq

theorem candidateAt_addToAccount (q : TxQ) (c : Candidate) (account : AccountID) (sp : SeqProxy)
    : (q.addToAccount c).candidateAt account sp
        = if account = c.account ∧ sp = c.seqProxy then some c else q.candidateAt account sp := by
  show ((q.byAccount.insert _ _).lookup account).bind _ = _
  rw [candidateAt_insert]
  by_cases haccount : account = c.account
  . subst haccount
    rw [if_pos rfl]
    show (((q.byAccount.lookup c.account).getD _).transactions.insert c.seqProxy c).lookup sp = _
    by_cases hsp : sp = c.seqProxy
    . subst hsp
      rw [lookup_insert, if_pos ⟨rfl, rfl⟩]
    rw [lookup_insert_ne hsp, if_neg fun h => hsp h.2]
    unfold candidateAt
    cases q.byAccount.lookup c.account with
    | none => rfl
    | some aq => rfl
  rw [if_neg haccount, if_neg fun h => haccount h.1]
  rfl

theorem Indexed.queueCandidate (h : q.Indexed) (haddr : ∀ d ∈ q.byFee, d.addr ≠ c.addr)
    (hid : ∀ d ∈ q.byFee, d.txID ≠ c.txID)
    (hplace : ∀ d ∈ q.byFee, d.account = c.account → d.seqProxy ≠ c.seqProxy)
    : ((q.addToAccount c).insertByFee c).Indexed := by
  have hranked : (q.addToAccount c).Ranked := ⟨h.nodup, h.sorted, h.byID⟩
  refine ⟨hranked.insertByFee hid, ?_, ?_⟩
  . intro account sp d
    rw [mem_insertByFee_iff]
    show (q.addToAccount c).candidateAt account sp = some d ↔ (d = c ∨ d ∈ q.byFee) ∧ _
    rw [candidateAt_addToAccount]
    split
    . next hown =>
      rw [Option.some_inj, hown.1, hown.2]
      constructor
      . rintro rfl
        exact ⟨.inl rfl, rfl, rfl⟩
      rintro ⟨rfl | hd, haccount, hsp⟩
      . rfl
      . exact absurd hsp (hplace d hd haccount)
    . next hother =>
      rw [h.byAccount]
      constructor
      . rintro ⟨hd, hat⟩
        exact ⟨.inr hd, hat⟩
      rintro ⟨rfl | hd, rfl, rfl⟩
      . exact absurd ⟨rfl, rfl⟩ hother
      . exact ⟨hd, rfl, rfl⟩
  intro d hd e he haddr'
  rw [mem_insertByFee_iff] at hd he
  rcases hd with rfl | hd
  . rcases he with rfl | he
    . rfl
    . exact absurd haddr' (haddr e he)
  rcases he with rfl | he
  . exact absurd haddr'.symm (haddr d hd)
  . exact h.known d hd e he haddr'

end TxQ

end TxQueue
