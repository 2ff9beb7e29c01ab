import GoXrpl.LedgerTrie.Lemmas.Shape

namespace LedgerTrie

open Finset (mem_insert mem_insert_of_mem mem_erase)

namespace Trie

theorem foldl_modify (l : List Addr) (hl : l.Nodup) (f : Node → Node) (t : Trie)
    : l.foldl (fun t c => t.modify c f) t =
        { t with nodes := fun x => if x ∈ l then f (t.nodes x) else t.nodes x } := by
  induction l generalizing t with
  | nil => simp
  | cons a l ih =>
    rw [List.nodup_cons] at hl
    rw [List.foldl_cons, ih hl.2]
    simp only [modify, Trie.mk.injEq, and_true]
    funext x
    by_cases hxa : x = a
    . subst hxa
      simp [hl.1]
    . simp [hxa]

end Trie

theorem Edge.of_eq (h : Edge nodes live a c) (hmem : c ∈ live')
    (hparent : (nodes' c).parent = (nodes c).parent)
    (hstart : (nodes' c).s.start = (nodes c).s.start)
    (hledger : (nodes' c).s.ledger = (nodes c).s.ledger)
    (hstop : (nodes' a).s.stop = (nodes a).s.stop) (htip : (nodes' a).s.tip = (nodes a).s.tip)
    : Edge nodes' live' a c where
  mem := hmem
  parent := hparent.trans h.parent
  start := by rw [hstart, hstop, h.start]
  descends := by
    rw [hledger, htip]
    exact h.descends

theorem Shape.congr (h : Shape genesis F nodes root live)
    (hs : ∀ a ∈ live, (nodes' a).s = (nodes a).s)
    (hparent : ∀ a ∈ live, (nodes' a).parent = (nodes a).parent)
    (hchildren : ∀ a ∈ live, (nodes' a).children.Perm (nodes a).children)
    : Shape genesis F nodes' root live := by
  have hmem : ∀ a ∈ live, ∀ c, c ∈ (nodes' a).children ↔ c ∈ (nodes a).children := by
    intro a ha c
    exact (hchildren a ha).mem_iff
  have hlive : ∀ a ∈ live, ∀ c ∈ (nodes a).children, c ∈ live :=
    fun a ha c hc => (h.edge a ha c hc).mem
  constructor
  case root_mem => exact h.root_mem
  case root_span => rw [hs root h.root_mem, h.root_span]
  case root_parent => rw [hparent root h.root_mem, h.root_parent]
  case valid =>
    intro a ha
    rw [hs a ha]
    exact h.valid a ha
  case edge =>
    intro a ha c hc
    rw [hmem a ha] at hc
    apply (h.edge a ha c hc).of_eq
    . exact hlive a ha c hc
    . exact hparent c (hlive a ha c hc)
    . rw [hs c (hlive a ha c hc)]
    . rw [hs c (hlive a ha c hc)]
    . rw [hs a ha]
    . rw [hs a ha]
  case parent =>
    intro a ha hroot
    obtain ⟨p, hp, hap, hpa⟩ := h.parent a ha hroot
    refine ⟨p, hp, ?_, ?_⟩
    . rw [hparent a ha, hap]
    . rwa [hmem p hp]
  case nodup =>
    intro a ha
    rw [(hchildren a ha).nodup_iff]
    exact h.nodup a ha
  case startID_inj =>
    intro a ha c hc d hd
    rw [hmem a ha] at hc hd
    rw [hs c (hlive a ha c hc), hs d (hlive a ha d hd)]
    exact h.startID_inj a ha c hc d hd

structure SplitAt (nodes nodes' : Addr → Node) (live : Finset Addr) (loc sfx : Addr) (d : Nat)
    : Prop where
  loc_mem : loc ∈ live
  sfx_not_mem : sfx ∉ live
  start_lt : (nodes loc).s.start < d
  lt_stop : d < (nodes loc).s.stop
  loc_eq : nodes' loc = { nodes loc with
    s := { start := (nodes loc).s.start, stop := d, ledger := (nodes loc).s.ledger }
    tipSupport := 0
    children := [sfx] }
  sfx_eq : nodes' sfx = { nodes loc with
    s := { start := d, stop := (nodes loc).s.stop, ledger := (nodes loc).s.ledger }
    parent := some loc }
  child_eq : ∀ c ∈ (nodes loc).children, nodes' c = { nodes c with parent := some sfx }
  other_eq : ∀ x ∈ live, x ≠ loc → x ∉ (nodes loc).children → nodes' x = nodes x

namespace SplitAt

variable (hsplit : SplitAt nodes nodes' live loc sfx d)
include hsplit

section

variable (hx : x ∈ live)

include hx

theorem eq_except_parent (hloc : x ≠ loc)
    : nodes' x = { nodes x with parent := (nodes' x).parent } := by
  by_cases hchild : x ∈ (nodes loc).children
  . rw [hsplit.child_eq x hchild]
  . rw [hsplit.other_eq x hx hloc hchild]

theorem parent_eq (hchild : x ∉ (nodes loc).children) : (nodes' x).parent = (nodes x).parent := by
  by_cases hloc : x = loc
  . rw [hloc, hsplit.loc_eq]
  . rw [hsplit.other_eq x hx hloc hchild]

theorem s_eq (hloc : x ≠ loc) : (nodes' x).s = (nodes x).s := by
  rw [hsplit.eq_except_parent hx hloc]

theorem children_eq (hloc : x ≠ loc) : (nodes' x).children = (nodes x).children := by
  rw [hsplit.eq_except_parent hx hloc]

theorem start_eq : (nodes' x).s.start = (nodes x).s.start := by
  by_cases hloc : x = loc
  . rw [hloc, hsplit.loc_eq]
  . rw [hsplit.s_eq hx hloc]

theorem ledger_eq : (nodes' x).s.ledger = (nodes x).s.ledger := by
  by_cases hloc : x = loc
  . rw [hloc, hsplit.loc_eq]
  . rw [hsplit.s_eq hx hloc]

theorem startID_eq : (nodes' x).s.startID = (nodes x).s.startID := by
  unfold Span.startID
  rw [hsplit.start_eq hx, hsplit.ledger_eq hx]

end

theorem sfx_tip : (nodes' sfx).s.tip = (nodes loc).s.tip := by
  rw [hsplit.sfx_eq]
  rfl

omit hsplit in
theorem forall_live {P : Addr → Prop} (hsfx : P sfx) (hloc : P loc) (hother : ∀ a ∈ live, a ≠ loc → P a)
    : ∀ a ∈ insert sfx live, P a := by
  rw [Finset.forall_mem_insert]
  refine ⟨hsfx, ?_⟩
  intro a ha
  by_cases hal : a = loc
  . rwa [hal]
  . exact hother a ha hal

theorem shape (h : Shape genesis F nodes root live)
    : Shape genesis F nodes' root (insert sfx live) := by
  have hloc := hsplit.loc_mem
  have hvloc := h.valid loc hloc
  have hlt := hsplit.start_lt
  have hlt' := hsplit.lt_stop
  have hroot : root ≠ loc := by
    intro heq
    rw [← heq, h.root_span] at hlt hlt'
    simp only at hlt hlt'
    omega
  have hsfxch : (nodes' sfx).children = (nodes loc).children := by rw [hsplit.sfx_eq]
  have hlocch : (nodes' loc).children = [sfx] := by rw [hsplit.loc_eq]
  constructor
  case root_mem => exact mem_insert_of_mem h.root_mem
  case root_span => rw [hsplit.s_eq h.root_mem hroot, h.root_span]
  case root_parent =>
    rw [hsplit.parent_eq h.root_mem, h.root_parent]
    intro hmem
    exact h.child_ne_root hloc hmem rfl
  case valid =>
    apply forall_live
    . rw [hsplit.sfx_eq]
      exact ⟨hvloc.mem, hlt', hvloc.stop_le⟩
    . rw [hsplit.loc_eq]
      have := hvloc.stop_le
      exact ⟨hvloc.mem, hlt, by dsimp; omega⟩
    intro a ha hal
    rw [hsplit.s_eq ha hal]
    exact h.valid a ha
  case edge =>
    apply forall_live
    . intro c hc
      rw [hsfxch] at hc
      have hedge := h.edge loc hloc c hc
      refine ⟨mem_insert_of_mem hedge.mem, by rw [hsplit.child_eq c hc], ?_, ?_⟩
      . rw [hsplit.start_eq hedge.mem, hedge.start, hsplit.sfx_eq]
      rw [hsplit.ledger_eq hedge.mem, hsplit.sfx_tip]
      exact hedge.descends
    . intro c hc
      rw [hlocch, List.mem_singleton] at hc
      rw [hc]
      refine ⟨Finset.mem_insert_self sfx live, by rw [hsplit.sfx_eq], ?_, ?_⟩
      . rw [hsplit.sfx_eq, hsplit.loc_eq]
      rw [hsplit.sfx_eq, hsplit.loc_eq, Span.tip_eq_at, Span.descends_at_iff]
      have := hvloc.stop_le
      exact ⟨by dsimp; omega, rfl⟩
    intro a ha hal c hc
    rw [hsplit.children_eq ha hal] at hc
    have hedge := h.edge a ha c hc
    apply hedge.of_eq (mem_insert_of_mem hedge.mem)
    . apply hsplit.parent_eq hedge.mem
      intro hmem
      exact hal (h.parent_unique ha hloc hc hmem)
    . exact hsplit.start_eq hedge.mem
    . exact hsplit.ledger_eq hedge.mem
    . rw [hsplit.s_eq ha hal]
    . rw [hsplit.s_eq ha hal]
  case parent =>
    intro a ha haroot
    rw [mem_insert] at ha
    cases ha with
    | inl ha =>
      refine ⟨loc, mem_insert_of_mem hloc, ?_, ?_⟩
      . rw [ha, hsplit.sfx_eq]
      rw [ha, hlocch]
      exact List.mem_singleton_self sfx
    | inr ha =>
      obtain ⟨p, hp, hap, hpa⟩ := h.parent a ha haroot
      by_cases hpl : p = loc
      . rw [hpl] at hpa
        refine ⟨sfx, Finset.mem_insert_self sfx live, ?_, ?_⟩
        . rw [hsplit.child_eq a hpa]
        . rwa [hsfxch]
      refine ⟨p, mem_insert_of_mem hp, ?_, ?_⟩
      . rw [hsplit.parent_eq ha, hap]
        intro hmem
        exact hpl (h.parent_unique hp hloc hpa hmem)
      . rwa [hsplit.children_eq hp hpl]
  case nodup =>
    apply forall_live
    . rw [hsfxch]
      exact h.nodup loc hloc
    . rw [hlocch]
      exact List.nodup_singleton sfx
    intro a ha hal
    rw [hsplit.children_eq ha hal]
    exact h.nodup a ha
  case startID_inj =>
    have hold : ∀ a ∈ live, ∀ c ∈ (nodes a).children, ∀ d ∈ (nodes a).children,
        (nodes' c).s.startID = (nodes' d).s.startID → c = d := by
      intro a ha c hc d hd heq
      rw [hsplit.startID_eq (h.edge a ha c hc).mem,
        hsplit.startID_eq (h.edge a ha d hd).mem] at heq
      exact h.startID_inj a ha c hc d hd heq
    apply forall_live
    . rw [hsfxch]
      exact hold loc hloc
    . rw [hlocch]
      intro c hc d hd _
      rw [List.mem_singleton] at hc hd
      rw [hc, hd]
    intro a ha hal
    rw [hsplit.children_eq ha hal]
    exact hold a ha

theorem counts (H : History genesis F) (h : Shape genesis F nodes root live)
    (hc : Counts F nodes live M)
    : Counts F nodes' (insert sfx live) M := by
  have hloc := hsplit.loc_mem
  have hlt := hsplit.start_lt
  have hlt' := hsplit.lt_stop
  have hloctip : (nodes' loc).s.tip = (nodes loc).s.at (d - 1) := by
    rw [hsplit.loc_eq]
    rfl
  constructor
  case mem => exact hc.mem
  case held =>
    intro x hx
    obtain ⟨a, ha, htip⟩ := hc.held x hx
    by_cases hal : a = loc
    . refine ⟨sfx, Finset.mem_insert_self sfx live, ?_⟩
      rw [hsplit.sfx_tip, ← htip, hal]
    refine ⟨a, mem_insert_of_mem ha, ?_⟩
    rw [hsplit.s_eq ha hal, htip]
  case tip =>
    apply forall_live
    . rw [hsplit.sfx_tip, hsplit.sfx_eq]
      exact hc.tip loc hloc
    . rw [hloctip, hsplit.loc_eq, hc.tipSupportOf_at H h hloc (by omega) (by omega)]
    intro a ha hal
    rw [hsplit.s_eq ha hal, hsplit.eq_except_parent ha hal]
    exact hc.tip a ha
  case branch =>
    apply forall_live
    . rw [hsplit.sfx_tip, hsplit.sfx_eq]
      exact hc.branch loc hloc
    . rw [hloctip, hc.branchSupportOf_at H h hloc (by omega) (by omega), hsplit.loc_eq]
      exact hc.branch loc hloc
    intro a ha hal
    rw [hsplit.s_eq ha hal, hsplit.eq_except_parent ha hal]
    exact hc.branch a ha

end SplitAt

structure ChildAdded (F : Ledger → Prop) (nodes nodes' : Addr → Node) (live : Finset Addr)
    (loc nn : Addr) (l : Ledger) : Prop where
  loc_mem : loc ∈ live
  nn_not_mem : nn ∉ live
  mem : F l
  descends : l.descends (nodes loc).s.tip
  stop_le : (nodes loc).s.stop ≤ l.seq
  child : ∀ c ∈ (nodes loc).children, ¬l.descends ((nodes c).s.at (nodes c).s.start)
  loc_eq : nodes' loc = { nodes loc with children := (nodes loc).children ++ [nn] }
  nn_eq : nodes' nn =
    { newNodeFromSpan { start := (nodes loc).s.stop, stop := l.seq + 1, ledger := l } with
      parent := some loc }
  other_eq : ∀ x ∈ live, x ≠ loc → nodes' x = nodes x

namespace ChildAdded

variable (hadd : ChildAdded F nodes nodes' live loc nn l)
include hadd

theorem eq_except_children (hx : x ∈ live)
    : nodes' x = { nodes x with children := (nodes' x).children } := by
  by_cases hloc : x = loc
  . rw [hloc, hadd.loc_eq]
  . rw [hadd.other_eq x hx hloc]

theorem s_eq (hx : x ∈ live) : (nodes' x).s = (nodes x).s := by
  rw [hadd.eq_except_children hx]

theorem parent_eq (hx : x ∈ live) : (nodes' x).parent = (nodes x).parent := by
  rw [hadd.eq_except_children hx]

theorem mem_children (ha : a ∈ live) (hc : c ∈ (nodes' a).children)
    : c ∈ (nodes a).children ∨ (a = loc ∧ c = nn) := by
  by_cases hal : a = loc
  . rw [hal, hadd.loc_eq] at hc
    simp only [List.mem_append, List.mem_singleton] at hc
    rw [hal]
    cases hc with
    | inl hc => exact .inl hc
    | inr hc => exact .inr ⟨rfl, hc⟩
  rw [hadd.other_eq a ha hal] at hc
  exact .inl hc

theorem nn_tip (H : History genesis F) : (nodes' nn).s.tip = l.tip := by
  rw [hadd.nn_eq]
  simp only [newNodeFromSpan, Span.tip, Ledger.tip, Nat.add_sub_cancel,
    H.ancestor_seq l hadd.mem]

theorem shape (h : Shape genesis F nodes root live)
    : Shape genesis F nodes' root (insert nn live) := by
  have hloc := hadd.loc_mem
  have hnnch : (nodes' nn).children = [] := by
    rw [hadd.nn_eq]
    rfl
  have hnns : (nodes' nn).s = { start := (nodes loc).s.stop, stop := l.seq + 1, ledger := l } := by
    rw [hadd.nn_eq]
    rfl
  have hstop := hadd.stop_le
  have hcases : ∀ P : Addr → Prop, P nn → (∀ a ∈ live, P a) → ∀ a ∈ insert nn live, P a :=
    fun P hnn hother => (Finset.forall_mem_insert nn live P).mpr ⟨hnn, hother⟩
  -- A child of a live node is an old one or the new one.
  have hchild : ∀ P : Addr → Addr → Prop, P loc nn →
      (∀ a ∈ live, ∀ c ∈ (nodes a).children, P a c) →
      ∀ a ∈ insert nn live, ∀ c ∈ (nodes' a).children, P a c := by
    intro P hnn hold
    apply hcases
    . rw [hnnch]
      intro c hc
      contradiction
    intro a ha c hc
    cases hadd.mem_children ha hc with
    | inl hc => exact hold a ha c hc
    | inr hc => rwa [hc.1, hc.2]
  constructor
  case root_mem => exact mem_insert_of_mem h.root_mem
  case root_span => rw [hadd.s_eq h.root_mem, h.root_span]
  case root_parent => rw [hadd.parent_eq h.root_mem, h.root_parent]
  case valid =>
    apply hcases
    . rw [hnns]
      exact ⟨hadd.mem, by dsimp; omega, by dsimp; omega⟩
    intro a ha
    rw [hadd.s_eq ha]
    exact h.valid a ha
  case edge =>
    apply hchild
    . refine ⟨Finset.mem_insert_self nn live, by rw [hadd.nn_eq], ?_, ?_⟩
      . rw [hnns, hadd.s_eq hloc]
      rw [hnns, hadd.s_eq hloc]
      exact hadd.descends
    intro a ha c hc
    have hedge := h.edge a ha c hc
    apply hedge.of_eq (mem_insert_of_mem hedge.mem) (hadd.parent_eq hedge.mem)
    . rw [hadd.s_eq hedge.mem]
    . rw [hadd.s_eq hedge.mem]
    . rw [hadd.s_eq ha]
    . rw [hadd.s_eq ha]
  case parent =>
    intro a ha haroot
    rw [mem_insert] at ha
    cases ha with
    | inl ha =>
      refine ⟨loc, mem_insert_of_mem hloc, ?_, ?_⟩
      . rw [ha, hadd.nn_eq]
      rw [ha, hadd.loc_eq]
      simp
    | inr ha =>
      obtain ⟨p, hp, hap, hpa⟩ := h.parent a ha haroot
      refine ⟨p, mem_insert_of_mem hp, ?_, ?_⟩
      . rw [hadd.parent_eq ha, hap]
      by_cases hpl : p = loc
      . rw [hpl] at hpa
        rw [hpl, hadd.loc_eq]
        simp [hpa]
      . rwa [hadd.other_eq p hp hpl]
  case nodup =>
    apply hcases
    . rw [hnnch]
      exact List.nodup_nil
    intro a ha
    by_cases hal : a = loc
    . rw [hal, hadd.loc_eq]
      apply List.Nodup.append (h.nodup loc hloc) (List.nodup_singleton nn)
      rw [List.disjoint_singleton]
      intro hmem
      exact hadd.nn_not_mem (h.edge loc hloc nn hmem).mem
    rw [hadd.other_eq a ha hal]
    exact h.nodup a ha
  case startID_inj =>
    -- No old child starts with the ledger the new one starts with.
    have hne : ∀ c ∈ (nodes loc).children, (nodes c).s.startID ≠ (nodes' nn).s.startID := by
      intro c hc heq
      apply hadd.child c hc
      have hstart := (h.edge loc hloc c hc).start
      unfold Span.startID at heq
      rw [hnns] at heq
      rw [Span.descends_at_iff]
      refine ⟨by omega, ?_⟩
      rw [heq, hstart]
    apply hcases
    . rw [hnnch]
      intro c hc
      contradiction
    intro a ha c hc d hd heq
    cases hadd.mem_children ha hc with
    | inl hc =>
      have hcl := (h.edge a ha c hc).mem
      rw [hadd.s_eq hcl] at heq
      cases hadd.mem_children ha hd with
      | inl hd =>
        rw [hadd.s_eq (h.edge a ha d hd).mem] at heq
        exact h.startID_inj a ha c hc d hd heq
      | inr hd =>
        rw [hd.1] at hc
        rw [hd.2] at heq
        exact absurd heq (hne c hc)
    | inr hc =>
      cases hadd.mem_children ha hd with
      | inl hd =>
        rw [hadd.s_eq (h.edge a ha d hd).mem, hc.2] at heq
        rw [hc.1] at hd
        exact absurd heq.symm (hne d hd)
      | inr hd => rw [hc.2, hd.2]

theorem counts (H : History genesis F) (h : Shape genesis F nodes root live)
    (hc : Counts F nodes live M)
    : Counts F nodes' (insert nn live) M := by
  have hnone : ∀ x ∈ M, ¬x.descends l.tip := by
    intro x hx hdesc
    rw [Ledger.descends_iff] at hdesc
    have hstop := hadd.stop_le
    simp only [Ledger.tip] at hdesc
    apply hc.not_descends_of_forall_child H h hadd.loc_mem hadd.mem hadd.descends hstop
      hadd.child hx (by omega)
    apply H.eq_of_le (hc.mem x hx) hadd.mem hdesc.1 (Nat.le_refl _) _ hstop
    rw [hdesc.2, H.ancestor_seq l hadd.mem]
  constructor
  case mem => exact hc.mem
  case held =>
    intro x hx
    obtain ⟨a, ha, htip⟩ := hc.held x hx
    refine ⟨a, mem_insert_of_mem ha, ?_⟩
    rw [hadd.s_eq ha, htip]
  case tip =>
    rw [Finset.forall_mem_insert, hadd.nn_tip H, hadd.nn_eq]
    constructor
    . apply Eq.symm
      apply List.countP_eq_zero.mpr
      intro x hx heq
      apply hnone x hx
      rw [← eq_of_beq heq]
      exact H.descends_tip (hc.mem x hx)
    intro a ha
    rw [hadd.eq_except_children ha]
    exact hc.tip a ha
  case branch =>
    rw [Finset.forall_mem_insert, hadd.nn_tip H, hadd.nn_eq]
    constructor
    . apply Eq.symm
      exact List.countP_eq_zero.mpr hnone
    intro a ha
    rw [hadd.eq_except_children ha]
    exact hc.branch a ha

end ChildAdded

section ChangeSupport

variable {nodes nodes' : Addr → Node}
variable (H : History genesis F) (h : Shape genesis F nodes root live) (hc : Counts F nodes live M)
variable (hloc : loc ∈ live) (hl : F l) (htip : (nodes loc).s.tip = l.tip)
variable (hs : ∀ a ∈ live, (nodes' a).s = (nodes a).s)
include H h hc hloc hl htip hs

omit hc hl hs in
theorem Shape.tip_eq_iff (ha : a ∈ live) : l.tip = (nodes a).s.tip ↔ a = loc := by
  rw [← htip]
  constructor
  . intro heq
    exact h.eq_of_tip H ha hloc heq.symm
  intro heq
  rw [heq]

theorem Counts.increase
    (htipSupport : ∀ a ∈ live,
      (nodes' a).tipSupport = (nodes a).tipSupport + if a = loc then count else 0)
    (hbranchSupport : ∀ a ∈ live,
      (nodes' a).branchSupport = (nodes a).branchSupport + if a ∈ chain nodes loc then count else 0)
    : Counts F nodes' live (addSupport M l count) := by
  constructor
  case mem =>
    intro x hx
    cases mem_addSupport hx with
    | inl hx => exact hc.mem x hx
    | inr hx => rwa [hx]
  case held =>
    intro x hx
    cases mem_addSupport hx with
    | inl hx =>
      obtain ⟨a, ha, hax⟩ := hc.held x hx
      refine ⟨a, ha, ?_⟩
      rw [hs a ha, hax]
    | inr hx =>
      refine ⟨loc, hloc, ?_⟩
      rw [hs loc hloc, htip, hx]
  case tip =>
    intro a ha
    rw [htipSupport a ha, hs a ha, hc.tip a ha, tipSupportOf, tipSupportOf, countP_addSupport]
    simp only [beq_iff_eq, h.tip_eq_iff H hloc htip ha]
  case branch =>
    intro a ha
    rw [hbranchSupport a ha, hs a ha, hc.branch a ha, branchSupportOf, branchSupportOf,
      countP_addSupport]
    simp only [h.descends_tip_iff H hloc ha hl htip]

theorem Counts.decrease (hcount : count ≤ tipSupportOf M l.tip)
    (htipSupport : ∀ a ∈ live,
      (nodes' a).tipSupport = (nodes a).tipSupport - if a = loc then count else 0)
    (hbranchSupport : ∀ a ∈ live,
      (nodes' a).branchSupport = (nodes a).branchSupport - if a ∈ chain nodes loc then count else 0)
    : Counts F nodes' live (removeSupport M l count) := by
  have hmem : ∀ x ∈ removeSupport M l count, x ∈ M := by
    intro x hx
    exact (removeSupport_sublist M l count).mem hx
  constructor
  case mem =>
    intro x hx
    exact hc.mem x (hmem x hx)
  case held =>
    intro x hx
    obtain ⟨a, ha, hax⟩ := hc.held x (hmem x hx)
    refine ⟨a, ha, ?_⟩
    rw [hs a ha, hax]
  case tip =>
    intro a ha
    rw [htipSupport a ha, hs a ha, hc.tip a ha, tipSupportOf, tipSupportOf,
      countP_removeSupport M l count _ (decide (l.tip = (nodes a).s.tip))]
    . simp only [decide_eq_true_eq, h.tip_eq_iff H hloc htip ha, Nat.min_eq_left hcount]
    intro x _ hx
    rw [hx]
    rfl
  case branch =>
    intro a ha
    rw [hbranchSupport a ha, hs a ha, hc.branch a ha, branchSupportOf, branchSupportOf,
      countP_removeSupport M l count _ (l.descends (nodes a).s.tip)]
    . simp only [h.descends_tip_iff H hloc ha hl htip, Nat.min_eq_left hcount]
    intro x hx heq
    rw [Bool.eq_iff_iff, h.descends_tip_iff H hloc ha hl htip,
      h.descends_tip_iff H hloc ha (hc.mem x hx) (htip.trans heq.symm)]

end ChangeSupport

-- `loc`, which has at most one child, is taken out and the child takes its place.
structure Spliced (nodes nodes' : Addr → Node) (live : Finset Addr) (loc p : Addr) : Prop where
  loc_mem : loc ∈ live
  p_mem : p ∈ live
  loc_child : loc ∈ (nodes p).children
  only : ∀ c ∈ (nodes loc).children, ∀ d ∈ (nodes loc).children, c = d
  child_eq : ∀ c ∈ (nodes loc).children, nodes' c = { nodes c with
    s := { (nodes c).s with start := (nodes loc).s.start }
    parent := some p }
  p_eq : nodes' p = { nodes p with children := (nodes' p).children }
  p_children : (nodes' p).children.Perm ((nodes loc).children ++ (nodes p).children.erase loc)
  other_eq : ∀ x ∈ live, x ≠ p → x ∉ (nodes loc).children → nodes' x = nodes x

namespace Spliced

variable (hsplice : Spliced nodes nodes' live loc p)
include hsplice

section

variable (hx : x ∈ live)

include hx

theorem eq_except_children (hxc : x ∉ (nodes loc).children)
    : nodes' x = { nodes x with children := (nodes' x).children } := by
  by_cases hxp : x = p
  . rw [hxp]
    exact hsplice.p_eq
  . rw [hsplice.other_eq x hx hxp hxc]

theorem s_eq (hxc : x ∉ (nodes loc).children) : (nodes' x).s = (nodes x).s := by
  rw [hsplice.eq_except_children hx hxc]

theorem parent_eq (hxc : x ∉ (nodes loc).children) : (nodes' x).parent = (nodes x).parent := by
  rw [hsplice.eq_except_children hx hxc]

theorem eq_except_start
    : nodes' x = { nodes x with
        s := { (nodes x).s with start := (nodes' x).s.start }
        parent := (nodes' x).parent
        children := (nodes' x).children } := by
  by_cases hxc : x ∈ (nodes loc).children
  . rw [hsplice.child_eq x hxc]
  . rw [hsplice.eq_except_children hx hxc]

theorem tip_eq : (nodes' x).s.tip = (nodes x).s.tip := by
  rw [hsplice.eq_except_start hx]
  rfl

theorem stop_eq : (nodes' x).s.stop = (nodes x).s.stop := by
  rw [hsplice.eq_except_start hx]

theorem tipSupport_eq : (nodes' x).tipSupport = (nodes x).tipSupport := by
  rw [hsplice.eq_except_start hx]

theorem children_eq (hxp : x ≠ p) : (nodes' x).children = (nodes x).children := by
  by_cases hxc : x ∈ (nodes loc).children
  . rw [hsplice.child_eq x hxc]
  . rw [hsplice.other_eq x hx hxp hxc]

end

theorem counts (hc : Counts F nodes live M) (hzero : (nodes loc).tipSupport = 0)
    : Counts F nodes' (live.erase loc) M := by
  apply hc.erase hsplice.loc_mem hzero
  . exact fun a ha => hsplice.tip_eq ha
  . exact fun a ha => hsplice.tipSupport_eq ha
  intro a ha
  rw [hsplice.eq_except_start ha]

variable (h : Shape genesis F nodes root live)
include h

theorem not_mem_of_mem (ha : a ∈ live) (hal : a ≠ loc) (hc : c ∈ (nodes a).children)
    : c ∉ (nodes loc).children :=
  fun hmem => hal (h.parent_unique ha hsplice.loc_mem hc hmem)

theorem mem_children_iff (ha : a ∈ live)
    : c ∈ (nodes' a).children ↔
        (a = p ∧ c ∈ (nodes loc).children) ∨ (c ∈ (nodes a).children ∧ c ≠ loc) := by
  by_cases hap : a = p
  . rw [hap, hsplice.p_children.mem_iff, List.mem_append, (h.nodup p hsplice.p_mem).mem_erase_iff]
    simp only [true_and, and_comm]
  rw [hsplice.children_eq ha hap]
  simp only [hap, false_and, false_or]
  constructor
  . intro hc
    refine ⟨hc, ?_⟩
    intro heq
    rw [heq] at hc
    exact hap (h.parent_unique ha hsplice.p_mem hc hsplice.loc_child)
  intro hc
  exact hc.1

theorem shape (H : History genesis F) : Shape genesis F nodes' root (live.erase loc) := by
  have hloc := hsplice.loc_mem
  have hp := hsplice.p_mem
  have hrootloc : root ≠ loc := (h.child_ne_root hp hsplice.loc_child).symm
  have hrootchild : root ∉ (nodes loc).children := fun hmem => h.child_ne_root hloc hmem rfl
  have hold : ∀ a ∈ live.erase loc, a ∈ live := fun a ha => Finset.mem_of_mem_erase ha
  have hne : ∀ a ∈ live.erase loc, a ≠ loc := fun a ha => Finset.ne_of_mem_erase ha
  have hcases : ∀ P : Addr → Addr → Prop, (∀ c ∈ (nodes loc).children, P p c) →
      (∀ a ∈ live, a ≠ loc → ∀ c ∈ (nodes a).children, c ≠ loc → P a c) →
      ∀ a ∈ live.erase loc, ∀ c ∈ (nodes' a).children, P a c := by
    intro P hnew hP a ha c hc
    rw [hsplice.mem_children_iff h (hold a ha)] at hc
    cases hc with
    | inl hc =>
      rw [hc.1]
      exact hnew c hc.2
    | inr hc => exact hP a (hold a ha) (hne a ha) c hc.1 hc.2
  constructor
  case root_mem => exact mem_erase.mpr ⟨hrootloc, h.root_mem⟩
  case root_span => rw [hsplice.s_eq h.root_mem hrootchild, h.root_span]
  case root_parent => rw [hsplice.parent_eq h.root_mem hrootchild, h.root_parent]
  case valid =>
    intro a ha
    have hva := h.valid a (hold a ha)
    by_cases hac : a ∈ (nodes loc).children
    . have := h.start_lt_child hloc hac
      have := hva.start_lt
      rw [hsplice.child_eq a hac]
      exact ⟨hva.mem, by dsimp; omega, hva.stop_le⟩
    . rwa [hsplice.s_eq (hold a ha) hac]
  case edge =>
    apply hcases
    . intro c hc
      have hmem := (h.edge loc hloc c hc).mem
      refine ⟨mem_erase.mpr ⟨h.child_ne hloc hc, hmem⟩, by rw [hsplice.child_eq c hc], ?_, ?_⟩
      . rw [hsplice.stop_eq hp, ← (h.edge p hp loc hsplice.loc_child).start, hsplice.child_eq c hc]
      have hdesc := (h.edge loc hloc c hc).descends
      have hpstop := h.stop_pos hp
      have := (h.edge p hp loc hsplice.loc_child).start
      have hvloc := h.valid loc hloc
      have := hvloc.start_lt
      have := hvloc.stop_le
      rw [hsplice.tip_eq hp, hsplice.child_eq c hc, Span.tip_eq_at,
        ← h.child_at H hp hsplice.loc_child (by omega)]
      exact H.descends_of_le (h.valid c hmem).mem hvloc.mem (by omega) (by omega) hdesc
    intro a ha hal c hc hcl
    have hedge := h.edge a ha c hc
    have hcc := hsplice.not_mem_of_mem h ha hal hc
    apply hedge.of_eq (mem_erase.mpr ⟨hcl, hedge.mem⟩) (hsplice.parent_eq hedge.mem hcc)
    . rw [hsplice.s_eq hedge.mem hcc]
    . rw [hsplice.s_eq hedge.mem hcc]
    . exact hsplice.stop_eq ha
    . exact hsplice.tip_eq ha
  case parent =>
    intro a ha haroot
    by_cases hac : a ∈ (nodes loc).children
    . refine ⟨p, mem_erase.mpr ⟨(h.child_ne hp hsplice.loc_child).symm, hp⟩, ?_, ?_⟩
      . rw [hsplice.child_eq a hac]
      rw [hsplice.p_children.mem_iff]
      exact List.mem_append_left _ hac
    obtain ⟨q, hq, haq, hqa⟩ := h.parent a (hold a ha) haroot
    have hqloc : q ≠ loc := by
      intro heq
      rw [heq] at hqa
      exact hac hqa
    refine ⟨q, mem_erase.mpr ⟨hqloc, hq⟩, ?_, ?_⟩
    . rw [hsplice.parent_eq (hold a ha) hac, haq]
    rw [hsplice.mem_children_iff h hq]
    exact .inr ⟨hqa, hne a ha⟩
  case nodup =>
    intro a ha
    by_cases hap : a = p
    . rw [hap, hsplice.p_children.nodup_iff]
      apply List.Nodup.append (h.nodup loc hloc) ((h.nodup p hp).erase loc)
      intro c hc hmem
      exact hsplice.not_mem_of_mem h hp (h.child_ne hp hsplice.loc_child).symm
        (List.mem_of_mem_erase hmem) hc
    rw [hsplice.children_eq (hold a ha) hap]
    exact h.nodup a (hold a ha)
  case startID_inj =>
    -- The child stands in for `loc`, whose first ledger it now starts with.
    have hstart : ∀ a ∈ live.erase loc, ∀ c ∈ (nodes' a).children,
        ∃ c₀ ∈ (nodes a).children, (nodes' c).s.startID = (nodes c₀).s.startID ∧
          if c₀ = loc then c ∈ (nodes loc).children else c = c₀ := by
      apply hcases
      . intro c hc
        refine ⟨loc, hsplice.loc_child, ?_, by rwa [if_pos rfl]⟩
        rw [hsplice.child_eq c hc]
        exact congrArg SpanTip.id (h.child_at H hloc hc (h.valid loc hloc).start_lt)
      intro a ha hal c hc hcl
      refine ⟨c, hc, ?_, by rw [if_neg hcl]⟩
      rw [hsplice.s_eq (h.edge a ha c hc).mem (hsplice.not_mem_of_mem h ha hal hc)]
    intro a ha c hc d hd heq
    obtain ⟨c₀, hc₀, hcid, hceq⟩ := hstart a ha c hc
    obtain ⟨d₀, hd₀, hdid, hdeq⟩ := hstart a ha d hd
    rw [h.startID_inj a (hold a ha) c₀ hc₀ d₀ hd₀ (by rw [← hcid, ← hdid, heq])] at hceq
    split at hceq
    . next hloc' =>
      rw [if_pos hloc'] at hdeq
      exact hsplice.only c hceq d hdeq
    . next hloc' =>
      rw [if_neg hloc'] at hdeq
      rw [hceq, hdeq]

end Spliced

end LedgerTrie
