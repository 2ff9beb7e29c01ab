import Mathlib.Data.Finset.Card
import GoXrpl.LedgerTrie.Lemmas.Span

open List LedgerTrie.Span Nat

namespace LedgerTrie

structure Edge (nodes : Addr → Node) (live : Finset Addr) (a c : Addr) : Prop where
  mem : c ∈ live
  parent : (nodes c).parent = some a
  start : (nodes c).s.start = (nodes a).s.stop
  descends : (nodes c).s.ledger.descends (nodes a).s.tip

structure Shape (genesis : Ledger) (F : Ledger → Prop) (nodes : Addr → Node) (root : Addr)
    (live : Finset Addr) : Prop where
  root_mem : root ∈ live
  root_span : (nodes root).s = { start := 0, stop := 1, ledger := genesis }
  root_parent : (nodes root).parent = none
  valid : ∀ a ∈ live, (nodes a).s.Valid F
  edge : ∀ a ∈ live, ∀ c ∈ (nodes a).children, Edge nodes live a c
  parent : ∀ a ∈ live, a ≠ root → ∃ p ∈ live, (nodes a).parent = some p ∧ a ∈ (nodes p).children
  nodup : ∀ a ∈ live, (nodes a).children.Nodup
  startID_inj : ∀ a ∈ live, ∀ c ∈ (nodes a).children, ∀ d ∈ (nodes a).children,
    (nodes c).s.startID = (nodes d).s.startID → c = d

theorem length_le_of_nodup {size : Nat} {l : List Addr} (hnodup : l.Nodup)
    (hsize : ∀ a ∈ l, a < size) : l.length ≤ size := by
  rw [← toFinset_card_of_nodup hnodup, ← Finset.card_range size]
  apply Finset.card_le_card
  intro a ha
  rw [mem_toFinset] at ha
  rw [Finset.mem_range]
  exact hsize a ha

namespace Shape

section

variable (h : Shape genesis F nodes root live) (ha : a ∈ live)

include h ha

theorem stop_pos : 0 < (nodes a).s.stop := by
  have := (h.valid a ha).start_lt
  omega

theorem start_pos (hroot : a ≠ root) : 0 < (nodes a).s.start := by
  obtain ⟨p, hp, _, hmem⟩ := h.parent a ha hroot
  rw [(h.edge p hp a hmem).start]
  apply h.stop_pos hp

theorem child_ne_root (hc : c ∈ (nodes a).children) : c ≠ root := by
  intro heq
  have hparent := (h.edge a ha c hc).parent
  rw [heq, h.root_parent] at hparent
  contradiction

theorem start_lt_child (hc : c ∈ (nodes a).children) : (nodes a).s.start < (nodes c).s.start := by
  rw [(h.edge a ha c hc).start]
  exact (h.valid a ha).start_lt

theorem child_ne (hc : c ∈ (nodes a).children) : c ≠ a := by
  intro heq
  have := h.start_lt_child ha hc
  rw [heq] at this
  omega

theorem parent_unique (hb : b ∈ live) (hca : c ∈ (nodes a).children) (hcb : c ∈ (nodes b).children)
    : a = b := by
  have := (h.edge a ha c hca).parent
  rw [(h.edge b hb c hcb).parent] at this
  exact (Option.some.inj this).symm

end

theorem self_mem_chain (a : Addr) : a ∈ chain nodes a := by
  simp [chain, chain.go]

variable (H : History genesis F) (h : Shape genesis F nodes root live)
include H h

theorem child_at (ha : a ∈ live) (hc : c ∈ (nodes a).children) (hq : q < (nodes a).s.stop)
    : (nodes c).s.at q = (nodes a).s.at q := by
  have hdesc := (h.edge a ha c hc).descends
  rw [tip_eq_at, descends_at_iff] at hdesc
  have hva := h.valid a ha
  have hvc := h.valid c (h.edge a ha c hc).mem
  have := hva.stop_le
  have := H.eq_of_le hvc.mem hva.mem hdesc.1 (by omega) hdesc.2 (p := q) (by omega)
  simp only [Span.at, this]

theorem eq_of_at (ha : a ∈ live) (hb : b ∈ live)
    (hqa1 : (nodes a).s.start ≤ q) (hqa2 : q < (nodes a).s.stop)
    (hqb1 : (nodes b).s.start ≤ q) (hqb2 : q < (nodes b).s.stop)
    (heq : (nodes a).s.at q = (nodes b).s.at q)
    : a = b := by
  generalize hn : (nodes a).s.start + (nodes b).s.start = n
  induction n using Nat.strongRecOn generalizing a b q with
  | ind n ih =>
    wlog hle : (nodes b).s.start ≤ (nodes a).s.start generalizing a b
    . exact (this hb ha hqb1 hqb2 hqa1 hqa2 heq.symm (by omega) (by omega)).symm
    have hva := h.valid a ha
    have hvb := h.valid b hb
    have hagree : ∀ r ≤ q, (nodes a).s.at r = (nodes b).s.at r := by
      intro r hr
      have := hva.stop_le
      have := hvb.stop_le
      have := H.eq_of_le hva.mem hvb.mem (s := q) (p := r) (by omega) (by omega)
        (congrArg SpanTip.id heq) hr
      simp only [Span.at, this]
    by_cases har : a = root
    . by_cases hbr : b = root
      . rw [har, hbr]
      have := h.start_pos hb hbr
      rw [har, h.root_span] at hle
      dsimp only at hle
      omega
    obtain ⟨p, hp, _, hpa⟩ := h.parent a ha har
    have hstart := (h.edge p hp a hpa).start
    have hplt := (h.valid p hp).start_lt
    -- `p` holds the ledger before `a`; so does `b`, or the parent of `b`.
    have hat : (nodes p).s.at ((nodes a).s.start - 1) = (nodes b).s.at ((nodes a).s.start - 1) := by
      rw [← hagree _ (by omega), h.child_at H hp hpa (by omega)]
    cases lt_or_eq_of_le hle with
    | inl hlt =>
      have hpb := ih _ (by omega) hp hb (by omega) (by omega) (by omega) (by omega) hat rfl
      rw [hpb] at hstart
      omega
    | inr hbstart =>
      have hbr : b ≠ root := by
        intro hbr
        rw [hbr, h.root_span] at hbstart
        dsimp only at hbstart
        omega
      obtain ⟨p', hp', _, hpb⟩ := h.parent b hb hbr
      have hstart' := (h.edge p' hp' b hpb).start
      have hplt' := (h.valid p' hp').start_lt
      rw [h.child_at H hp' hpb (by omega)] at hat
      have hpp := ih _ (by omega) hp hp' (by omega) (by omega) (by omega) (by omega) hat rfl
      rw [← hpp] at hpb
      apply h.startID_inj p hp a hpa b hpb
      have hid := congrArg SpanTip.id (hagree _ hqa1)
      unfold Span.startID
      rw [hbstart]
      exact hid

omit H in
theorem induct {P : Addr → Prop} (hroot : P root)
    (hchild : ∀ p ∈ live, ∀ c ∈ (nodes p).children, P p → P c) (ha : a ∈ live)
    : P a := by
  generalize hn : (nodes a).s.start = n
  induction n using Nat.strongRecOn generalizing a with
  | ind n ih =>
    by_cases har : a = root
    . rwa [har]
    obtain ⟨p, hp, _, hmem⟩ := h.parent a ha har
    have hlt := h.start_lt_child hp hmem
    exact hchild p hp a hmem (ih _ (by omega) hp rfl)

omit H in
theorem chain_root : chain nodes root = [root] := by
  simp [chain, chain.go, h.root_parent, h.root_span]

omit H in
theorem chain_child (ha : a ∈ live) (hc : c ∈ (nodes a).children)
    : chain nodes c = c :: chain nodes a := by
  -- More fuel than the start of the span changes nothing.
  have hgo : ∀ fuel, (nodes a).s.start < fuel →
      chain.go nodes fuel (some a) = chain nodes a := by
    refine h.induct (P := fun a => ∀ fuel, (nodes a).s.start < fuel →
      chain.go nodes fuel (some a) = chain nodes a) ?_ ?_ ha
    . intro fuel hfuel
      obtain ⟨fuel, rfl⟩ := Nat.exists_eq_add_one_of_ne_zero (Nat.ne_zero_of_lt hfuel)
      rw [h.chain_root, chain.go, h.root_parent]
      cases fuel <;> rfl
    intro p hp c hc ih fuel hfuel
    have hlt := h.start_lt_child hp hc
    obtain ⟨fuel, rfl⟩ := Nat.exists_eq_add_one_of_ne_zero (Nat.ne_zero_of_lt hfuel)
    unfold chain
    rw [chain.go, chain.go, (h.edge p hp c hc).parent, ih fuel (by omega), ih _ hlt]
  rw [← hgo _ (h.start_lt_child ha hc), chain, chain.go, (h.edge a ha c hc).parent]

omit H in
theorem mem_live_of_mem_chain (ha : a ∈ live) (hb : b ∈ chain nodes a) : b ∈ live := by
  revert hb
  refine h.induct (P := fun a => b ∈ chain nodes a → b ∈ live) ?_ ?_ ha
  . rw [h.chain_root, mem_singleton]
    rintro rfl
    exact h.root_mem
  intro p hp c hc ih
  rw [h.chain_child hp hc, mem_cons]
  rintro (rfl | hb)
  . exact (h.edge p hp b hc).mem
  . exact ih hb

omit H in
theorem descends_tip_self (ha : a ∈ live) : (nodes a).s.ledger.descends (nodes a).s.tip := by
  have hva := h.valid a ha
  have := hva.start_lt
  have := hva.stop_le
  rw [tip_eq_at, descends_at_iff]
  exact ⟨by omega, rfl⟩

theorem mem_chain_iff (ha : a ∈ live) (hb : b ∈ live)
    : b ∈ chain nodes a ↔
        (nodes b).s.stop ≤ (nodes a).s.stop ∧ (nodes a).s.ledger.descends (nodes b).s.tip := by
  have hvb := h.valid b hb
  have hbpos := h.stop_pos hb
  have hself : ∀ a ∈ live, (nodes b).s.stop ≤ (nodes a).s.stop →
      (nodes a).s.ledger.descends (nodes b).s.tip → (nodes a).s.start < (nodes b).s.stop → b = a := by
    intro a ha hle hdesc hlt
    rw [Span.tip_eq_at, Span.descends_at_iff] at hdesc
    have := hvb.start_lt
    apply h.eq_of_at H hb ha (q := (nodes b).s.stop - 1) <;> try omega
    simp only [Span.at, hdesc.2]
  refine h.induct (P := fun a => b ∈ chain nodes a ↔
    (nodes b).s.stop ≤ (nodes a).s.stop ∧ (nodes a).s.ledger.descends (nodes b).s.tip) ?_ ?_ ha
  . rw [h.chain_root, mem_singleton]
    constructor
    . rintro rfl
      exact ⟨le_refl _, h.descends_tip_self hb⟩
    intro hr
    apply hself root h.root_mem hr.1 hr.2
    rw [h.root_span]
    exact hbpos
  intro p hp a hmem ih
  have ha := (h.edge p hp a hmem).mem
  have hstart := (h.edge p hp a hmem).start
  have hva := h.valid a ha
  have hvp := h.valid p hp
  have := hva.start_lt
  have := hva.stop_le
  have := hvp.stop_le
  have hat : (nodes b).s.stop ≤ (nodes p).s.stop →
      ((nodes a).s.ledger.descends (nodes b).s.tip ↔
        (nodes p).s.ledger.descends (nodes b).s.tip) := by
    intro hle
    have := congrArg SpanTip.id
      (h.child_at H hp hmem (q := (nodes b).s.stop - 1) (by omega))
    simp only [Span.at] at this
    rw [Span.tip_eq_at, Span.descends_at_iff, Span.descends_at_iff, this]
    constructor <;> exact fun hr => ⟨by omega, hr.2⟩
  rw [h.chain_child hp hmem, mem_cons, ih]
  constructor
  . rintro (rfl | hr)
    . exact ⟨le_refl _, h.descends_tip_self hb⟩
    . exact ⟨by omega, (hat hr.1).mpr hr.2⟩
  intro hr
  cases lt_or_ge (nodes a).s.start (nodes b).s.stop with
  | inl hlt => exact .inl (hself a ha hr.1 hr.2 hlt)
  | inr hge => exact .inr ⟨by omega, (hat (by omega)).mp hr.2⟩

theorem descends_root (hx : F x) : x.descends (nodes root).s.tip := by
  rw [h.root_span, Ledger.descends_iff]
  refine ⟨zero_le _, ?_⟩
  exact (H.ancestor_zero x hx).trans (H.ancestor_zero genesis H.genesis_mem).symm

theorem eq_of_tip (ha : a ∈ live) (hb : b ∈ live) (htip : (nodes a).s.tip = (nodes b).s.tip)
    : a = b := by
  have hseq : (nodes a).s.stop - 1 = (nodes b).s.stop - 1 := congrArg SpanTip.seq htip
  have := (h.valid a ha).start_lt
  have := (h.valid b hb).start_lt
  apply h.eq_of_at H ha hb (q := (nodes a).s.stop - 1) <;> try omega
  rw [tip_eq_at, tip_eq_at] at htip
  rw [htip, hseq]

theorem descends_tip_iff (ha : a ∈ live) (hb : b ∈ live) (hl : F l) (htip : (nodes a).s.tip = l.tip)
    : l.descends (nodes b).s.tip ↔ b ∈ chain nodes a := by
  have hseq : (nodes a).s.stop - 1 = l.seq := congrArg SpanTip.seq htip
  have hid : (nodes a).s.ledger.ancestor ((nodes a).s.stop - 1) = l.id := congrArg SpanTip.id htip
  have hva := h.valid a ha
  have := hva.start_lt
  have := hva.stop_le
  have := h.stop_pos hb
  have hagree : ∀ q ≤ l.seq, l.ancestor q = (nodes a).s.ledger.ancestor q := by
    intro q hq
    apply H.eq_of_le hl hva.mem (le_refl _) (by omega) _ hq
    rw [H.ancestor_seq l hl, ← hid, hseq]
  rw [h.mem_chain_iff H ha hb, tip_eq_at, descends_at_iff, descends_at_iff]
  constructor
  . intro hr
    rw [← hagree _ hr.1]
    exact ⟨by omega, by omega, hr.2⟩
  intro hr
  rw [hagree _ (by omega)]
  exact ⟨by omega, hr.2.2⟩

theorem chain_nodup (ha : a ∈ live) : (chain nodes a).Nodup := by
  refine h.induct (P := fun a => (chain nodes a).Nodup) ?_ ?_ ha
  . rw [h.chain_root]
    exact nodup_singleton root
  intro p hp c hc ih
  have hclive := (h.edge p hp c hc).mem
  rw [h.chain_child hp hc, nodup_cons, h.mem_chain_iff H hp hclive]
  refine ⟨?_, ih⟩
  have := (h.edge p hp c hc).start
  have := (h.valid c hclive).start_lt
  omega

theorem chain_length_le {size : Nat} (hsize : ∀ a ∈ live, a < size) (ha : a ∈ live)
    : (chain nodes a).length ≤ size :=
  length_le_of_nodup (h.chain_nodup H ha) fun b hb => hsize b (h.mem_live_of_mem_chain ha hb)

theorem exists_at (ha : a ∈ live) (hq : q < (nodes a).s.stop)
    : ∃ b ∈ live, (nodes b).s.start ≤ q ∧ q < (nodes b).s.stop ∧
        (nodes b).s.at q = (nodes a).s.at q ∧ b ∈ chain nodes a := by
  revert hq
  refine h.induct (P := fun a => q < (nodes a).s.stop → ∃ b ∈ live, (nodes b).s.start ≤ q ∧
    q < (nodes b).s.stop ∧ (nodes b).s.at q = (nodes a).s.at q ∧ b ∈ chain nodes a) ?_ ?_ ha
  . intro hq
    refine ⟨root, h.root_mem, ?_, hq, rfl, self_mem_chain root⟩
    rw [h.root_span]
    exact zero_le q
  intro p hp c hc ih hq
  have hstart := (h.edge p hp c hc).start
  cases lt_or_ge q (nodes c).s.start with
  | inr hge => exact ⟨c, (h.edge p hp c hc).mem, hge, hq, rfl, self_mem_chain c⟩
  | inl hlt =>
    obtain ⟨b, hb, hb1, hb2, hat, hmem⟩ := ih (by omega)
    rw [h.child_at H hp hc (by omega), h.chain_child hp hc]
    exact ⟨b, hb, hb1, hb2, hat, mem_cons_of_mem c hmem⟩

end Shape

structure Counts (F : Ledger → Prop) (nodes : Addr → Node) (live : Finset Addr)
    (M : List Ledger) : Prop where
  mem : ∀ x ∈ M, F x
  held : ∀ x ∈ M, ∃ a ∈ live, (nodes a).s.tip = x.tip
  tip : ∀ a ∈ live, (nodes a).tipSupport = tipSupportOf M (nodes a).s.tip
  branch : ∀ a ∈ live, (nodes a).branchSupport = branchSupportOf M (nodes a).s.tip

namespace Counts

section

variable (hc : Counts F nodes live M)

include hc

theorem ne_of_tipSupport_eq_zero (hx : x ∈ M)
    (hloc : loc ∈ live) (hzero : (nodes loc).tipSupport = 0) (htip : (nodes a).s.tip = x.tip)
    : a ≠ loc := by
  intro heq
  rw [hc.tip loc hloc, tipSupportOf, countP_eq_zero] at hzero
  apply hzero x hx
  rw [← htip, heq]
  exact beq_self_eq_true _

theorem tipSupport_le (ha : a ∈ live) : (nodes a).tipSupport ≤ M.length := by
  rw [hc.tip a ha]
  exact countP_le_length

theorem branchSupport_le (ha : a ∈ live) : (nodes a).branchSupport ≤ M.length := by
  rw [hc.branch a ha]
  exact countP_le_length

theorem erase (hloc : loc ∈ live)
    (hzero : (nodes loc).tipSupport = 0) (htip : ∀ a ∈ live, (nodes' a).s.tip = (nodes a).s.tip)
    (htipSupport : ∀ a ∈ live, (nodes' a).tipSupport = (nodes a).tipSupport)
    (hbranchSupport : ∀ a ∈ live, (nodes' a).branchSupport = (nodes a).branchSupport)
    : Counts F nodes' (live.erase loc) M := by
  constructor
  case mem => exact hc.mem
  case held =>
    intro x hx
    obtain ⟨a, ha, hat⟩ := hc.held x hx
    have hal : a ≠ loc := hc.ne_of_tipSupport_eq_zero hx hloc hzero hat
    refine ⟨a, Finset.mem_erase.mpr ⟨hal, ha⟩, ?_⟩
    rw [htip a ha, hat]
  case tip =>
    intro a ha
    have hold := Finset.mem_of_mem_erase ha
    rw [htipSupport a hold, htip a hold]
    exact hc.tip a hold
  case branch =>
    intro a ha
    have hold := Finset.mem_of_mem_erase ha
    rw [hbranchSupport a hold, htip a hold]
    exact hc.branch a hold

end

variable (H : History genesis F) (h : Shape genesis F nodes root live) (hc : Counts F nodes live M)
include H h hc

theorem exists_at (hx : x ∈ M) (hq : q ≤ x.seq)
    : ∃ b ∈ live, (nodes b).s.start ≤ q ∧ q < (nodes b).s.stop ∧
        x.ancestor q = (nodes b).s.ledger.ancestor q ∧ x.descends (nodes b).s.tip := by
  obtain ⟨a, ha, hat⟩ := hc.held x hx
  have hseq : (nodes a).s.stop - 1 = x.seq := congrArg SpanTip.seq hat
  have hid : (nodes a).s.ledger.ancestor ((nodes a).s.stop - 1) = x.id := congrArg SpanTip.id hat
  have hva := h.valid a ha
  have hlt := hva.start_lt
  have hle := hva.stop_le
  have hagree : ∀ p ≤ x.seq, x.ancestor p = (nodes a).s.ledger.ancestor p := by
    intro p hp
    apply H.eq_of_le (hc.mem x hx) hva.mem (le_refl _) (by omega) _ hp
    rw [H.ancestor_seq x (hc.mem x hx), ← hid, hseq]
  obtain ⟨b, hb, hb1, hb2, hbat, hchain⟩ := h.exists_at H ha (q := q) (by omega)
  have hbid := congrArg SpanTip.id hbat
  simp only [Span.at] at hbid
  refine ⟨b, hb, hb1, hb2, ?_, ?_⟩
  . rw [hbid, hagree q hq]
  rw [h.mem_chain_iff H ha hb, tip_eq_at, descends_at_iff] at hchain
  rw [tip_eq_at, descends_at_iff]
  have := h.stop_pos hb
  refine ⟨by omega, ?_⟩
  rw [hagree _ (by omega), hchain.2.2]

theorem descends_tip_of_at (hx : x ∈ M) (ha : a ∈ live)
    (h1 : (nodes a).s.start ≤ q) (h2 : q < (nodes a).s.stop) (hdesc : x.descends ((nodes a).s.at q))
    : x.descends (nodes a).s.tip := by
  rw [Span.descends_at_iff] at hdesc
  obtain ⟨b, hb, hb1, hb2, hbat, hbdesc⟩ := hc.exists_at H h hx hdesc.1
  have : a = b := by
    apply h.eq_of_at H ha hb h1 h2 hb1 hb2
    simp only [Span.at, ← hbat, hdesc.2]
  rwa [this]

theorem branchSupportOf_at (ha : a ∈ live) (h1 : (nodes a).s.start ≤ q) (h2 : q < (nodes a).s.stop)
    : branchSupportOf M ((nodes a).s.at q) = branchSupportOf M (nodes a).s.tip := by
  apply countP_congr
  intro x hx
  constructor
  . intro hdesc
    exact hc.descends_tip_of_at H h hx ha h1 h2 hdesc
  intro hdesc
  have hva := h.valid a ha
  have := hva.stop_le
  exact H.descends_of_le (hc.mem x hx) hva.mem (by omega) (by omega) hdesc

theorem tipSupportOf_at (ha : a ∈ live) (h1 : (nodes a).s.start ≤ q) (h2 : q + 1 < (nodes a).s.stop)
    : tipSupportOf M ((nodes a).s.at q) = 0 := by
  unfold tipSupportOf
  rw [countP_eq_zero]
  intro x hx heq
  simp only [beq_iff_eq] at heq
  have hseq : x.seq = q := congrArg SpanTip.seq heq
  have hdesc := H.descends_tip (hc.mem x hx)
  rw [heq] at hdesc
  have := hc.descends_tip_of_at H h hx ha h1 (by omega) hdesc
  rw [tip_eq_at, descends_at_iff] at this
  omega

theorem not_descends_of_forall_child (hloc : loc ∈ live) (hl : F l)
    (hdesc : l.descends (nodes loc).s.tip) (hseq : (nodes loc).s.stop ≤ l.seq)
    (hchild : ∀ c ∈ (nodes loc).children, ¬l.descends ((nodes c).s.at (nodes c).s.start))
    (hx : x ∈ M) (hxseq : (nodes loc).s.stop ≤ x.seq)
    : x.ancestor (nodes loc).s.stop ≠ l.ancestor (nodes loc).s.stop := by
  intro heq
  have hloclt := (h.valid loc hloc).start_lt
  obtain ⟨c, hc1, hstart, hstop, hat, _⟩ := hc.exists_at H h hx hxseq
  have hvc := h.valid c hc1
  have := hvc.stop_le
  rw [Span.tip_eq_at, Span.descends_at_iff] at hdesc
  -- `c` passes through the tip of `loc`.
  have hprev : (nodes c).s.at ((nodes loc).s.stop - 1) = (nodes loc).s.at ((nodes loc).s.stop - 1) := by
    have := H.eq_of_le hvc.mem hl (s := (nodes loc).s.stop) (p := (nodes loc).s.stop - 1)
      (by omega) hseq (by rw [← hat, heq]) (by omega)
    simp only [Span.at, this, hdesc.2]
  cases lt_or_eq_of_le hstart with
  | inl hlt =>
    have := h.eq_of_at H hc1 hloc (by omega) (by omega) (by omega) (by omega) hprev
    rw [this] at hstop
    omega
  | inr hstart =>
    have hroot : c ≠ root := by
      intro hroot
      rw [hroot, h.root_span] at hstart
      simp only at hstart
      omega
    obtain ⟨p, hp, _, hmem⟩ := h.parent c hc1 hroot
    have hpstop := (h.edge p hp c hmem).start
    have hplt := (h.valid p hp).start_lt
    have hploc : p = loc := by
      apply h.eq_of_at H hp hloc (q := (nodes loc).s.stop - 1) <;> try omega
      rw [← h.child_at H hp hmem (by omega), hprev]
    subst hploc
    apply hchild c hmem
    rw [Span.descends_at_iff, hstart]
    exact ⟨hseq, by rw [← hat, heq]⟩

end Counts

end LedgerTrie
