import Mathlib.Algebra.Order.BigOperators.Group.List
import Mathlib.Algebra.Order.Group.Nat
import Mathlib.Data.List.GetD
import Mathlib.Data.List.MinMax
import GoXrpl.LedgerTrie.NaiveWalk
import GoXrpl.LedgerTrie.Lemmas.CheckInvariants

open List LedgerTrie.Span LedgerTrie.Trie Nat

namespace LedgerTrie

structure KeysFrom (M : List Ledger) (bound : Nat) (keys : List Nat) (uncommitted : Nat)
    : Prop where
  sorted : keys.Pairwise (· < ·)
  mem_iff : ∀ s, s ∈ keys ↔ bound ≤ s ∧ seqSupportOf M s ≠ 0
  uncommitted_eq : uncommitted = supportBelow M bound

theorem supportBelow_succ (M : List Ledger) (s : Nat)
    : supportBelow M (s + 1) = supportBelow M s + seqSupportOf M s := by
  unfold supportBelow seqSupportOf
  induction M with
  | nil => rfl
  | cons x M ih =>
    simp only [countP_cons, ih, beq_iff_eq, decide_eq_true_eq]
    split <;> split <;> split <;> omega

theorem supportBelow_eq_of_forall (hbc : b ≤ c) (hzero : ∀ s, b ≤ s → s < c → seqSupportOf M s = 0)
    : supportBelow M c = supportBelow M b := by
  induction c with
  | zero =>
    have : b = 0 := by omega
    rw [this]
  | succ c ih =>
    cases lt_or_eq_of_le hbc with
    | inl hlt =>
      rw [supportBelow_succ, hzero c (by omega) (by omega), add_zero]
      apply ih (by omega)
      intro s hb hc
      exact hzero s hb (by omega)
    | inr heq => rw [heq]

namespace KeysFrom

variable {keys : List Nat}

theorem seqSupportOf_eq_zero (h : KeysFrom M b keys uncommitted) (hle : ∀ k ∈ keys, c ≤ k)
    (hb : b ≤ s) (hc : s < c)
    : seqSupportOf M s = 0 := by
  apply Classical.byContradiction
  intro hne
  have := hle s ((h.mem_iff s).mpr ⟨hb, hne⟩)
  omega

theorem supportBelow_eq (h : KeysFrom M b keys uncommitted) (hbc : b ≤ c) (hle : ∀ k ∈ keys, c ≤ k)
    : supportBelow M c = uncommitted := by
  rw [h.uncommitted_eq]
  apply supportBelow_eq_of_forall hbc
  intro s hb hc
  exact h.seqSupportOf_eq_zero hle hb hc

theorem raise (h : KeysFrom M b keys uncommitted) (hbc : b ≤ c) (hle : ∀ k ∈ keys, c ≤ k)
    : KeysFrom M c keys uncommitted := by
  refine ⟨h.sorted, ?_, (h.supportBelow_eq hbc hle).symm⟩
  intro s
  rw [h.mem_iff]
  constructor
  . intro hs
    exact ⟨hle s ((h.mem_iff s).mpr hs), hs.2⟩
  intro hs
  exact ⟨by omega, hs.2⟩

variable (h : KeysFrom M b (k :: keys) uncommitted)

include h

theorem head_le : ∀ k' ∈ k :: keys, k ≤ k' := by
  intro k' hk'
  have hsorted := pairwise_cons.mp h.sorted
  cases mem_cons.mp hk' with
  | inl heq => omega
  | inr hmem => exact le_of_lt (hsorted.1 k' hmem)

theorem bound_le_head : b ≤ k :=
  ((h.mem_iff k).mp mem_cons_self).1

theorem tail : KeysFrom M (k + 1) keys (uncommitted + seqSupportOf M k) := by
  have hsorted := pairwise_cons.mp h.sorted
  have hbk := h.bound_le_head
  refine ⟨hsorted.2, ?_, ?_⟩
  . intro s
    have hs := h.mem_iff s
    rw [mem_cons] at hs
    constructor
    . intro hmem
      exact ⟨hsorted.1 s hmem, (hs.mp (.inr hmem)).2⟩
    intro hmem
    cases hs.mpr ⟨by omega, hmem.2⟩ with
    | inl heq => omega
    | inr hmem => exact hmem
  . rw [supportBelow_succ, h.supportBelow_eq hbk h.head_le]

end KeysFrom

namespace Trie

variable {seqSupport : AList (fun _ : Nat => Nat)}
variable (hlookup : ∀ s, (seqSupport.lookup s).getD 0 = seqSupportOf M s)
include hlookup

theorem absorb_spec {floor : Nat} (hbound : bound ≤ floor) (keys : List Nat) (uncommitted : Nat)
    (h : KeysFrom M bound keys uncommitted)
    : KeysFrom M floor (absorb seqSupport floor keys uncommitted).1
        (absorb seqSupport floor keys uncommitted).2 := by
  induction keys generalizing bound uncommitted with
  | nil => exact h.raise hbound (by simp)
  | cons key keys ih =>
    unfold absorb
    split
    . next hkey =>
      rw [hlookup]
      exact ih hkey _ h.tail
    . next hkey =>
      apply h.raise hbound
      intro k hk
      have := h.head_le k hk
      omega

theorem advance_spec {branchSupport stop : Nat} (keys : List Nat) (nextSeq uncommitted : Nat)
    (hnext : nextSeq ≤ stop) (h : KeysFrom M (max largestIssued nextSeq) keys uncommitted)
    (hr : advance seqSupport branchSupport stop keys nextSeq uncommitted = r)
    : nextSeq ≤ r.1 ∧ r.1 ≤ stop ∧ KeysFrom M (max largestIssued r.1) r.2.1 r.2.2 ∧
        (∀ s, nextSeq ≤ s → s < r.1 → supportBelow M (max largestIssued s) < branchSupport) ∧
        (r.1 < stop → branchSupport ≤ r.2.2) := by
  induction keys generalizing nextSeq uncommitted with
  | nil =>
    unfold advance at hr
    split at hr
    . next hlt =>
      subst hr
      refine ⟨by dsimp; omega, le_refl _, h.raise (by dsimp; omega) (by simp), ?_, by simp⟩
      intro s hs _
      rw [h.supportBelow_eq (by omega) (by simp)]
      exact hlt.2
    . next hge =>
      subst hr
      refine ⟨le_refl _, hnext, h, ?_, ?_⟩
      . intro s hs hs'
        omega
      intro hlt
      dsimp only at *
      omega
  | cons key keys ih =>
    have hkey := h.bound_le_head
    unfold advance at hr
    split at hr
    . next hlt =>
      -- Up to the next supported sequence the uncommitted support stays the same.
      have hsame : ∀ s, nextSeq ≤ s → s ≤ key → supportBelow M (max largestIssued s) = uncommitted := by
        intro s hs hsk
        apply h.supportBelow_eq (by omega)
        intro k hk
        have := h.head_le k hk
        omega
      split at hr
      . next hstop =>
        rw [hlookup] at hr
        have htail : KeysFrom M (max largestIssued (key + 1)) keys
            (uncommitted + seqSupportOf M key) := by
          rw [max_eq_right (by omega)]
          exact h.tail
        have hrec := ih (key + 1) _ hstop htail hr
        refine ⟨by omega, hrec.2.1, hrec.2.2.1, ?_, hrec.2.2.2.2⟩
        intro s hs hsr
        cases lt_or_ge key s with
        | inl hks => exact hrec.2.2.2.1 s hks hsr
        | inr hsk =>
          rw [hsame s hs hsk]
          exact hlt.2
      . next hstop =>
        subst hr
        refine ⟨hnext, le_refl _, ?_, ?_, by simp⟩
        . apply h.raise (by dsimp; omega)
          intro k hk
          have := h.head_le k hk
          omega
        intro s hs hs'
        rw [hsame s hs (by omega)]
        exact hlt.2
    . next hge =>
      subst hr
      refine ⟨le_refl _, hnext, h, ?_, ?_⟩
      . intro s hs hs'
        omega
      intro hlt
      dsimp only at *
      omega

end Trie

theorem nodeOutranks_trans (hab : nodeOutranks a b) (hbc : nodeOutranks b c)
    : nodeOutranks a c := by
  unfold nodeOutranks at *
  split at hab
  . split at hbc
    . simp only [decide_eq_true_eq] at hab hbc
      rw [if_pos (by omega), decide_eq_true_eq]
      omega
    simp only [decide_eq_true_eq] at hab
    rw [if_pos (by omega), decide_eq_true_eq]
    omega
  split at hbc
  . simp only [decide_eq_true_eq] at hbc
    rw [if_pos (by omega), decide_eq_true_eq]
    omega
  rw [if_neg (by omega)]
  exact ledgerIDGreater_trans hab hbc

theorem nodeOutranks_total (hne : a.s.startID ≠ b.s.startID)
    : nodeOutranks a b ∨ nodeOutranks b a := by
  unfold nodeOutranks
  by_cases hsupport : a.branchSupport = b.branchSupport
  . rw [if_neg (by omega), if_neg (by omega)]
    exact ledgerIDGreater_total hne
  rw [if_pos hsupport, if_pos (Ne.symm hsupport)]
  simp only [decide_eq_true_eq]
  omega

namespace Trie

theorem nodes_modify_children (t : Trie) (curr : Addr) (children : List Addr) (x : Addr)
    : (t.modify curr (fun n => { n with children })).nodes x =
        { t.nodes x with children := if x = curr then children else (t.nodes x).children } := by
  by_cases hx : x = curr
  . subst hx
    simp [modify]
  . simp [modify, hx]

theorem promote_perm (children : List Addr) (bestIndex : Nat) (second : Addr)
    : (promote children bestIndex second).Perm children := by
  have hfirst : (if bestIndex ≠ 0 then children.swap 0 bestIndex else children).Perm children := by
    split
    . apply swap_perm
    . exact List.Perm.refl _
  unfold promote
  dsimp only
  split
  . exact (swap_perm _ _ _).trans hfirst
  . exact hfirst

structure IsBest (nodes : Addr → Node) (children : List Addr) (best : Addr) (margin : Nat)
    : Prop where
  mem : best ∈ children
  outranks : ∀ d ∈ children, d ≠ best → nodeOutranks (nodes best) (nodes d)
  margin_eq : ((∀ d ∈ children, d = best) ∧ margin = (nodes best).branchSupport) ∨
    ∃ second ∈ children, second ≠ best ∧
      (∀ d ∈ children, d ≠ best → d ≠ second → nodeOutranks (nodes second) (nodes d)) ∧
      margin = (nodes best).branchSupport - (nodes second).branchSupport +
        if ledgerIDGreater (nodes best).s.startID (nodes second).s.startID then 1 else 0

theorem pickBest_spec {nodes : Addr → Node} (hnodup : children.Nodup)
    (hinj : ∀ c ∈ children, ∀ d ∈ children, (nodes c).s.startID = (nodes d).s.startID → c = d)
    (hpick : pickBest nodes children = (best, children'))
    : children'.Perm children ∧ (best = none → children = []) ∧
        ∀ b ∈ best, IsBest nodes children b.1 b.2 := by
  match children with
  | [] =>
    cases hpick
    simp
  | [c] =>
    cases hpick
    refine ⟨List.Perm.refl _, by simp, ?_⟩
    intro b hb
    cases hb
    refine ⟨mem_singleton_self c, ?_, .inl ⟨?_, rfl⟩⟩
    . intro d hd hdc
      exact absurd (mem_singleton.mp hd) hdc
    intro d hd
    exact mem_singleton.mp hd
  | c :: c' :: rest =>
    simp only [pickBest] at hpick
    generalize hchildren : c :: c' :: rest = children at *
    have hlen : 2 ≤ children.length := by
      rw [← hchildren]
      simp
    have hget : ∀ i < children.length, children.getD i 0 ∈ children := by
      intro i hi
      rw [getD_eq_getElem _ _ hi]
      exact getElem_mem hi
    have hgetinj : ∀ i j, i < children.length → j < children.length →
        children.getD i 0 = children.getD j 0 → i = j := by
      intro i j hi hj heq
      rw [getD_eq_getElem _ _ hi, getD_eq_getElem _ _ hj] at heq
      exact (hnodup.getElem_inj_iff).mp heq
    have hidx : ∀ d ∈ children, ∃ i, i < children.length ∧ children.getD i 0 = d := by
      intro d hd
      obtain ⟨i, hi, hid⟩ := getElem_of_mem hd
      exact ⟨i, hi, by rw [getD_eq_getElem _ _ hi, hid]⟩
    have htop : Search.IsTopTwo
        (fun i j => nodeOutranks (nodes (children.getD i 0)) (nodes (children.getD j 0)))
        children.length (bestAndSecond nodes children) := by
      apply Search.topTwo_isTopTwo hlen
      . intro i j k _ _ _
        exact nodeOutranks_trans
      intro i j hi hj hij
      apply nodeOutranks_total
      intro heq
      exact hij (hgetinj i j hi hj (hinj _ (hget i hi) _ (hget j hj) heq))
    generalize bestAndSecond nodes children = top at *
    cases hpick
    refine ⟨promote_perm _ _ _, by simp, ?_⟩
    intro b hb
    cases hb
    refine ⟨hget _ htop.fst_lt, ?_, .inr ⟨_, hget _ htop.snd_lt, ?_, ?_, ?_⟩⟩
    . intro d hd hdb
      obtain ⟨i, hi, hid⟩ := hidx d hd
      have := htop.fst_outranks i hi (fun heq => hdb (by rw [← hid, heq]))
      rwa [hid] at this
    . intro heq
      exact htop.ne (hgetinj _ _ htop.snd_lt htop.fst_lt heq).symm
    . intro d hd hdb hds
      obtain ⟨i, hi, hid⟩ := hidx d hd
      have := htop.snd_outranks i hi (fun heq => hdb (by rw [← hid, heq]))
        (fun heq => hds (by rw [← hid, heq]))
      rwa [hid] at this
    dsimp only
    split <;> rfl

end Trie

namespace Inv

variable (H : History genesis F) (hinv : Inv genesis F t live M)
include H hinv

section

variable (ha : a ∈ live)

include ha

theorem branchSupport_pos (hroot : a ≠ t.root) : 0 < (t.nodes a).branchSupport := by
  have h := hinv.shape
  -- A node without tip support has children, which are further away from the root.
  generalize hk : t.size - (chain t.nodes a).length = k
  induction k using Nat.strongRecOn generalizing a with
  | ind k ih =>
    have hsum := hinv.counts.branchSupport_eq_sum H h ha
    by_cases htip : (t.nodes a).tipSupport = 0
    . have hforks := hinv.forks a ha hroot htip
      obtain ⟨c, hc⟩ := exists_mem_of_length_pos (lt_of_lt_of_le (by omega) hforks)
      have hclive := (h.edge a ha c hc).mem
      have hlen := h.chain_length_le H hinv.fresh hclive
      rw [h.chain_child ha hc, length_cons] at hlen
      have hpos := ih _ (by rw [h.chain_child ha hc, length_cons]; omega) hclive
        (h.child_ne_root ha hc) rfl
      have hmem : (t.nodes c).branchSupport ∈
          (t.nodes a).children.map (fun c => (t.nodes c).branchSupport) := by
        exact mem_map_of_mem hc
      have := le_sum_of_mem hmem
      omega
    . omega

theorem naiveStep_at (hpos : 0 < (t.nodes a).branchSupport)
    (hstart : (t.nodes a).s.start ≤ s) (hstop : s + 1 < (t.nodes a).s.stop)
    : naiveStep M largestIssued ((t.nodes a).s.at s) =
        if supportBelow M (max largestIssued (s + 1)) < (t.nodes a).branchSupport then
          some ((t.nodes a).s.at (s + 1))
        else
          none := by
  have h := hinv.shape
  have hc := hinv.counts
  have hv := h.valid a ha
  have hle := hv.stop_le
  have hbranch : ∀ q, (t.nodes a).s.start ≤ q → q < (t.nodes a).s.stop →
      branchSupportOf M ((t.nodes a).s.at q) = (t.nodes a).branchSupport := by
    intro q h1 h2
    rw [hc.branchSupportOf_at H h ha h1 h2, hc.branch a ha]
  have hmem : ∀ id, id ∈ childIDs M ((t.nodes a).s.at s) ↔
      id ∈ [(t.nodes a).s.ledger.ancestor (s + 1)] := by
    intro id
    rw [mem_childIDs, mem_singleton]
    constructor
    . intro hid
      obtain ⟨x, hx, hseq, hdesc, heq⟩ := hid
      have htip := hc.descends_tip_of_at H h hx ha hstart (by omega) hdesc
      have := H.descends_of_le (hc.mem x hx) hv.mem (p := s + 1) (by omega) (by omega) htip
      rw [descends_at_iff] at this
      rw [← heq, ← this.2]
      rfl
    intro hid
    rw [← hbranch (s + 1) (by omega) hstop, branchSupportOf, countP_pos_iff] at hpos
    obtain ⟨x, hx, hdesc⟩ := hpos
    have hdesc' := H.descends_of_le (hc.mem x hx) hv.mem (p := s) (by omega) (by omega) hdesc
    rw [descends_at_iff] at hdesc
    exact ⟨x, hx, hdesc.1, hdesc', by rw [hid, ← hdesc.2]; rfl⟩
  have hbest : Search.greatest (idOutranks M (s + 1)) (childIDs M ((t.nodes a).s.at s)) =
      some ((t.nodes a).s.ledger.ancestor (s + 1)) := by
    rw [Search.greatest_congr (idOutranks_asymm M (s + 1)) hmem]
    apply Search.greatest_eq_some (idOutranks_asymm M (s + 1)) (mem_singleton_self _)
    intro x hx hne
    exact absurd (mem_singleton.mp hx) hne
  have hmargin : margin M (s + 1) (childIDs M ((t.nodes a).s.at s))
      ((t.nodes a).s.ledger.ancestor (s + 1)) = (t.nodes a).branchSupport := by
    have hnil : (childIDs M ((t.nodes a).s.at s)).filter
        (· ≠ (t.nodes a).s.ledger.ancestor (s + 1)) = [] := by
      rw [filter_eq_nil_iff]
      intro x hx
      rw [hmem, mem_singleton] at hx
      simp [hx]
    unfold margin
    rw [hnil]
    exact hbranch (s + 1) (by omega) hstop
  simp only [naiveStep, at_seq, hbest, hmargin, max_comm (s + 1)]
  split <;> split <;> first | rfl | omega

theorem mem_childIDs_tip (id : LedgerID)
    : id ∈ childIDs M (t.nodes a).s.tip ↔
        ∃ c ∈ (t.nodes a).children, (t.nodes c).s.startID = id := by
  have h := hinv.shape
  have hc := hinv.counts
  have hstop := h.stop_pos ha
  have htip : (t.nodes a).s.tip.seq + 1 = (t.nodes a).s.stop := by
    simp only [tip]
    omega
  rw [mem_childIDs, htip]
  constructor
  . intro hid
    obtain ⟨x, hx, hseq, hdesc, heq⟩ := hid
    have hseq : (t.nodes a).s.stop ≤ x.seq := by omega
    apply Classical.byContradiction
    intro hnone
    apply hc.not_descends_of_forall_child H h ha (hc.mem x hx) hdesc hseq _ hx hseq rfl
    intro c hcmem hcdesc
    apply hnone
    refine ⟨c, hcmem, ?_⟩
    rw [descends_at_iff] at hcdesc
    rw [← heq, startID, ← hcdesc.2, (h.edge a ha c hcmem).start]
  intro hid
  obtain ⟨c, hcmem, heq⟩ := hid
  have hclive := (h.edge a ha c hcmem).mem
  have hv := h.valid c hclive
  have hstart := (h.edge a ha c hcmem).start
  have := hv.start_lt
  have := hv.stop_le
  have hpos := hinv.branchSupport_pos H hclive (h.child_ne_root ha hcmem)
  rw [hc.branch c hclive, branchSupportOf, countP_pos_iff] at hpos
  obtain ⟨x, hx, hdesc⟩ := hpos
  have hxF := hc.mem x hx
  have hdstart := H.descends_of_le hxF hv.mem (p := (t.nodes c).s.start) (by omega) (by omega) hdesc
  have hdtip := H.descends_of_le hxF hv.mem (p := (t.nodes a).s.stop - 1) (by omega) (by omega) hdesc
  rw [h.child_at H ha hcmem (by omega)] at hdtip
  rw [descends_at_iff, hstart] at hdstart
  refine ⟨x, hx, by omega, hdtip, ?_⟩
  rw [hdstart.2, ← heq, startID, hstart]

theorem branchSupportOf_startID (hcmem : c ∈ (t.nodes a).children)
    : branchSupportOf M { seq := (t.nodes a).s.stop, id := (t.nodes c).s.startID } =
        (t.nodes c).branchSupport := by
  have h := hinv.shape
  have hclive := (h.edge a ha c hcmem).mem
  rw [hinv.counts.branch c hclive, ← hinv.counts.branchSupportOf_at H h hclive (le_refl _)
    (h.valid c hclive).start_lt, ← (h.edge a ha c hcmem).start]
  rfl

theorem idOutranks_startID (hc : c ∈ (t.nodes a).children) (hd : d ∈ (t.nodes a).children)
    : idOutranks M (t.nodes a).s.stop (t.nodes c).s.startID (t.nodes d).s.startID =
        nodeOutranks (t.nodes c) (t.nodes d) := by
  unfold idOutranks nodeOutranks
  rw [hinv.branchSupportOf_startID H ha hc, hinv.branchSupportOf_startID H ha hd]

theorem naiveStep_tip_of_nil (hnil : (t.nodes a).children = [])
    : naiveStep M largestIssued (t.nodes a).s.tip = none := by
  have hmem : ∀ id, id ∈ childIDs M (t.nodes a).s.tip ↔ id ∈ [] := by
    intro id
    rw [hinv.mem_childIDs_tip H ha, hnil]
    simp
  unfold naiveStep
  rw [Search.greatest_congr (idOutranks_asymm M _) hmem]
  rfl

theorem naiveStep_tip (hbest : Trie.IsBest t.nodes (t.nodes a).children best bestMargin)
    : naiveStep M largestIssued (t.nodes a).s.tip =
        if bestMargin > supportBelow M (max largestIssued (t.nodes a).s.stop) ∨
            supportBelow M (max largestIssued (t.nodes a).s.stop) = 0 then
          some ((t.nodes best).s.at (t.nodes best).s.start)
        else
          none := by
  have h := hinv.shape
  have hstop := h.stop_pos ha
  have htip : (t.nodes a).s.tip.seq + 1 = (t.nodes a).s.stop := by
    simp only [tip]
    omega
  have hmem := hinv.mem_childIDs_tip H ha
  have hasymm := idOutranks_asymm M (t.nodes a).s.stop
  have hgreatest : Search.greatest (idOutranks M (t.nodes a).s.stop) (childIDs M (t.nodes a).s.tip) =
      some (t.nodes best).s.startID := by
    apply Search.greatest_eq_some hasymm
    . rw [hmem]
      exact ⟨best, hbest.mem, rfl⟩
    intro id hid hne
    rw [hmem] at hid
    obtain ⟨c, hc, heq⟩ := hid
    subst heq
    rw [hinv.idOutranks_startID H ha hbest.mem hc]
    apply hbest.outranks c hc
    intro heq
    rw [heq] at hne
    exact hne rfl
  have hmargin : margin M (t.nodes a).s.stop (childIDs M (t.nodes a).s.tip)
      (t.nodes best).s.startID = bestMargin := by
    have hothers : ∀ id, id ∈ (childIDs M (t.nodes a).s.tip).filter (· ≠ (t.nodes best).s.startID) ↔
        ∃ c ∈ (t.nodes a).children, c ≠ best ∧ (t.nodes c).s.startID = id := by
      intro id
      rw [mem_filter, hmem]
      simp only [ne_eq, decide_eq_true_eq]
      constructor
      . intro hid
        obtain ⟨⟨c, hc, heq⟩, hne⟩ := hid
        refine ⟨c, hc, ?_, heq⟩
        intro hcb
        rw [hcb] at heq
        exact hne heq.symm
      intro hid
      obtain ⟨c, hc, hcb, heq⟩ := hid
      refine ⟨⟨c, hc, heq⟩, ?_⟩
      intro heq'
      exact hcb (h.startID_inj a ha c hc best hbest.mem (heq.trans heq'))
    unfold margin
    cases hbest.margin_eq with
    | inl hsingle =>
      have hnone : ∀ id, id ∈ (childIDs M (t.nodes a).s.tip).filter
          (· ≠ (t.nodes best).s.startID) ↔ id ∈ [] := by
        intro id
        rw [hothers]
        constructor
        . intro hid
          obtain ⟨c, hc, hcb, _⟩ := hid
          exact absurd (hsingle.1 c hc) hcb
        intro hid
        contradiction
      rw [Search.greatest_congr hasymm hnone, hsingle.2]
      exact hinv.branchSupportOf_startID H ha hbest.mem
    | inr hsecond =>
      obtain ⟨second, hmems, hne, houtranks, heq⟩ := hsecond
      have hsnd : Search.greatest (idOutranks M (t.nodes a).s.stop)
          ((childIDs M (t.nodes a).s.tip).filter (· ≠ (t.nodes best).s.startID)) =
          some (t.nodes second).s.startID := by
        apply Search.greatest_eq_some hasymm
        . rw [hothers]
          exact ⟨second, hmems, hne, rfl⟩
        intro id hid hids
        rw [hothers] at hid
        obtain ⟨c, hc, hcb, hcid⟩ := hid
        subst hcid
        rw [hinv.idOutranks_startID H ha hmems hc]
        apply houtranks c hc hcb
        intro hcs
        rw [hcs] at hids
        exact hids rfl
      rw [hsnd]
      dsimp only
      rw [hinv.branchSupportOf_startID H ha hbest.mem, hinv.branchSupportOf_startID H ha hmems, heq]
  have hat : (t.nodes best).s.at (t.nodes best).s.start =
      { seq := (t.nodes a).s.stop, id := (t.nodes best).s.startID } := by
    rw [← (h.edge a ha best hbest.mem).start]
    rfl
  simp only [naiveStep, htip, hgreatest, hmargin, hat, max_comm (t.nodes a).s.stop]

end

omit H in
theorem reorder (hperm : children.Perm (t.nodes curr).children)
    : Inv genesis F (t.modify curr (fun n => { n with children })) live M := by
  have hs := t.nodes_modify_children curr children
  have hchildren : ∀ a, (if a = curr then children else (t.nodes a).children).Perm
      (t.nodes a).children := by
    intro a
    split
    . next ha => rwa [ha]
    . exact List.Perm.refl _
  constructor
  case shape =>
    apply hinv.shape.congr
    . intro a _
      rw [hs]
    . intro a _
      rw [hs]
    intro a _
    rw [hs]
    exact hchildren a
  case counts =>
    refine ⟨hinv.counts.mem, ?_, ?_, ?_⟩
    . intro x hx
      obtain ⟨a, ha, htip⟩ := hinv.counts.held x hx
      exact ⟨a, ha, by rw [hs, ← htip]⟩
    . intro a ha
      rw [hs]
      exact hinv.counts.tip a ha
    intro a ha
    rw [hs]
    exact hinv.counts.branch a ha
  case fresh => exact hinv.fresh
  case forks =>
    intro a ha hroot
    rw [hs]
    rw [(hchildren a).length_eq]
    exact hinv.forks a ha hroot
  case index => exact hinv.index
  case length_le => exact hinv.length_le

end Inv

abbrev Reaches (M : List Ledger) (largestIssued : Nat) : SpanTip → SpanTip → Prop :=
  Relation.ReflTransGen fun p q => naiveStep M largestIssued p = some q

def WalksTo (M : List Ledger) (largestIssued : Nat) (p q : SpanTip) : Prop :=
  Reaches M largestIssued p q ∧ naiveStep M largestIssued q = none

theorem WalksTo.head (hstep : naiveStep M largestIssued p = some p')
    (h : WalksTo M largestIssued p' q)
    : WalksTo M largestIssued p q :=
  ⟨.head hstep h.1, h.2⟩

theorem WalksTo.of_reaches (hreach : Reaches M largestIssued p p')
    (h : WalksTo M largestIssued p' q)
    : WalksTo M largestIssued p q :=
  ⟨hreach.trans h.1, h.2⟩

namespace Inv

variable (H : History genesis F)
include H

theorem reaches_at (hinv : Inv genesis F t live M) (ha : a ∈ live)
    (hpos : 0 < (t.nodes a).branchSupport) (hs : (t.nodes a).s.start ≤ s)
    (hstop : s < (t.nodes a).s.stop)
    (hsupport : ∀ q, (t.nodes a).s.start + 1 ≤ q → q ≤ s →
      supportBelow M (max largestIssued q) < (t.nodes a).branchSupport)
    : Reaches M largestIssued ((t.nodes a).s.at (t.nodes a).s.start) ((t.nodes a).s.at s) := by
  induction s with
  | zero =>
    have : (t.nodes a).s.start = 0 := by omega
    rw [this]
  | succ s ih =>
    cases lt_or_eq_of_le hs with
    | inr heq => rw [heq]
    | inl hlt =>
      apply Relation.ReflTransGen.tail
      . exact ih (by omega) (by omega) (fun q h1 h2 => hsupport q h1 (by omega))
      rw [hinv.naiveStep_at H ha hpos (by omega) hstop, if_pos]
      exact hsupport (s + 1) (by omega) (by omega)

theorem getPreferred_go (fuel : Nat) (hinv : Inv genesis F t live M) {curr : Addr}
    (hcurr : curr ∈ live) (hpos : 0 < (t.nodes curr).branchSupport) {keys : List Nat}
    (hkeys : KeysFrom M bound keys uncommitted)
    (hbound : bound ≤ max largestIssued ((t.nodes curr).s.start + 1))
    (hfuel : t.size < fuel + (chain t.nodes curr).length)
    : ∃ t' q, getPreferred.go largestIssued fuel t curr keys uncommitted = .ok (t', some q) ∧
        Inv genesis F t' live M ∧
        WalksTo M largestIssued ((t.nodes curr).s.at (t.nodes curr).s.start) q := by
  induction fuel generalizing t curr bound keys uncommitted with
  | zero =>
    have := hinv.shape.chain_length_le H hinv.fresh hcurr
    omega
  | succ fuel ih =>
    have h := hinv.shape
    have hv := h.valid curr hcurr
    have hlt := hv.start_lt
    have hlookup := hinv.index.getD_lookup
    unfold getPreferred.go
    dsimp only
    have habsorb := absorb_spec hlookup hbound keys uncommitted hkeys
    generalize absorb _ _ keys uncommitted = r₁ at *
    generalize hadvance : advance _ _ _ r₁.1 _ r₁.2 = r₂
    obtain ⟨hr1, hr2, hkeys₂, hwalk, hstopped⟩ :=
      advance_spec hlookup r₁.1 _ r₁.2 hlt habsorb hadvance
    have hreach : Reaches M largestIssued _ _ :=
      hinv.reaches_at H hcurr hpos (s := r₂.1 - 1) (by omega) (by omega) (fun q h1 h2 => hwalk q h1 (by omega))
    split
    . next hinside =>
      rw [before_eq (by omega) (by omega)]
      refine ⟨t, _, rfl, hinv, hreach, ?_⟩
      have hstep : naiveStep M largestIssued _ = _ :=
        hinv.naiveStep_at H hcurr hpos (s := r₂.1 - 1) (by omega) (by omega)
      rw [Nat.sub_add_cancel (by omega), ← hkeys₂.uncommitted_eq, if_neg] at hstep
      . exact hstep
      have := hstopped hinside
      omega
    . next hend =>
      have hr : r₂.1 = (t.nodes curr).s.stop := by omega
      rw [hr] at hreach hkeys₂
      have hunc := hkeys₂.uncommitted_eq
      generalize hpick : pickBest t.nodes (t.nodes curr).children = picked
      obtain ⟨hperm, hnone, hsome⟩ := pickBest_spec (h.nodup curr hcurr)
        (h.startID_inj curr hcurr)
        (show pickBest t.nodes (t.nodes curr).children = (picked.1, picked.2) from hpick)
      have hinv' := hinv.reorder hperm
      cases hbest : picked.1 with
      | none =>
        refine ⟨_, _, rfl, hinv', hreach, ?_⟩
        exact hinv.naiveStep_tip_of_nil H hcurr (hnone hbest)
      | some b =>
        have hisBest := hsome b hbest
        have hstep : naiveStep M largestIssued _ = _ := hinv.naiveStep_tip H hcurr hisBest
        rw [← hunc] at hstep
        dsimp only
        split
        . next hcond =>
          rw [if_pos hcond] at hstep
          have hb := (h.edge curr hcurr b.1 hisBest.mem).mem
          have hnode := t.nodes_modify_children curr picked.2
          have hchain : chain (t.modify curr (fun n => { n with children := picked.2 })).nodes b.1 =
              chain t.nodes b.1 :=
            chain_congr (by intro x; rw [hnode]) (by intro x; rw [hnode]) b.1
          obtain ⟨t', q, hok, hfinal, hrest⟩ := ih hinv' hb
            (by rw [hnode]; exact hinv.branchSupport_pos H hb (h.child_ne_root hcurr hisBest.mem))
            hkeys₂ (by rw [hnode, (h.edge curr hcurr b.1 hisBest.mem).start]; omega) (by
              rw [hchain, h.chain_child hcurr hisBest.mem, length_cons]
              show t.size < _
              omega)
          refine ⟨t', q, hok, hfinal, ?_⟩
          apply WalksTo.of_reaches hreach
          apply WalksTo.head hstep
          rw [hnode] at hrest
          exact hrest
        . next hcond =>
          rw [if_neg hcond] at hstep
          exact ⟨_, _, rfl, hinv', hreach, hstep⟩

theorem getPreferred_nil (hinv : Inv genesis F t live []) (largestIssued : Nat)
    : t.getPreferred largestIssued = .ok (t, none) := by
  have hroot := hinv.root_branchSupport H
  unfold getPreferred empty
  rw [hroot]
  rfl

theorem getPreferred_of_ne_nil (hinv : Inv genesis F t live M) (hM : M ≠ []) (largestIssued : Nat)
    : ∃ t' q, t.getPreferred largestIssued = .ok (t', some q) ∧ Inv genesis F t' live M ∧
        WalksTo M largestIssued genesis.tip q := by
  have h := hinv.shape
  have hlen := length_pos_of_ne_nil hM
  have hroot := hinv.root_branchSupport H
  unfold getPreferred empty
  rw [hroot, if_neg (by simpa using hM)]
  have hkeys : KeysFrom M 0 t.seqKeys 0 := by
    refine ⟨hinv.index.sorted, ?_, ?_⟩
    . intro s
      rw [hinv.index.mem_iff]
      simp
    . simp [supportBelow]
  obtain ⟨t', q, hok, hinv', hwalks⟩ := getPreferred_go H t.size hinv h.root_mem (by omega)
    hkeys (show 0 ≤ max largestIssued ((t.nodes t.root).s.start + 1) from zero_le _)
    (by rw [h.chain_root]; simp)
  refine ⟨t', q, hok, hinv', ?_⟩
  have htip : (t.nodes t.root).s.at (t.nodes t.root).s.start = genesis.tip := by
    rw [h.root_span]
    simp only [Span.at, Ledger.tip, H.genesis_seq, H.ancestor_zero genesis H.genesis_mem]
  rwa [htip] at hwalks

end Inv

theorem naiveStep_seq (h : naiveStep M largestIssued p = some q)
    : q.seq = p.seq + 1 ∧ q.seq ≤ highestSeq M := by
  unfold naiveStep at h
  split at h
  . contradiction
  . next best hbest =>
    dsimp only at h
    split at h
    . cases h
      have hmem := mem_of_find?_eq_some hbest
      rw [mem_childIDs] at hmem
      obtain ⟨x, hx, hlt, _, _⟩ := hmem
      refine ⟨rfl, le_trans hlt ?_⟩
      exact le_max_of_le' 0 (mem_map_of_mem hx) (le_refl _)
    . contradiction

theorem WalksTo.naiveWalk_eq (h : WalksTo M largestIssued p q) (hfuel : highestSeq M ≤ fuel + p.seq)
    : naiveWalk M largestIssued fuel p = q := by
  obtain ⟨hreach, hstop⟩ := h
  induction hreach using Relation.ReflTransGen.head_induction_on generalizing fuel with
  | refl =>
    cases fuel with
    | zero => rfl
    | succ fuel =>
      unfold naiveWalk
      rw [hstop]
  | head hstep _ ih =>
    obtain ⟨hseq, hle⟩ := naiveStep_seq hstep
    cases fuel with
    | zero => omega
    | succ fuel =>
      unfold naiveWalk
      rw [hstep]
      exact ih (by omega)

end LedgerTrie
