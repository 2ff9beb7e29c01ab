import GoXrpl.LedgerTrie.Lemmas.Heap
import GoXrpl.LedgerTrie.Lemmas.SeqIndex

open LedgerTrie.Span Nat Finset

namespace LedgerTrie

structure Inv (genesis : Ledger) (F : Ledger → Prop) (t : Trie) (live : Finset Addr)
    (M : List Ledger) : Prop where
  shape : Shape genesis F t.nodes t.root live
  counts : Counts F t.nodes live M
  fresh : ∀ a ∈ live, a < t.size
  forks : ∀ a ∈ live, a ≠ t.root → (t.nodes a).tipSupport = 0 → 2 ≤ (t.nodes a).children.length
  index : SeqIndex t.seqSupport t.seqKeys (seqSupportOf M)
  length_le : M.length ≤ maxUint32

variable {t : Trie}
variable {l : Ledger} {count : Nat}

theorem chain_congr
    (hparent : ∀ x, (nodes' x).parent = (nodes x).parent) (hs : ∀ x, (nodes' x).s = (nodes x).s)
    (a : Addr)
    : chain nodes' a = chain nodes a := by
  have hgo : ∀ fuel cur, chain.go nodes' fuel cur = chain.go nodes fuel cur := by
    intro fuel
    induction fuel with
    | zero => simp [chain.go]
    | succ fuel ih =>
      intro cur
      cases cur with
      | none => rfl
      | some cur => simp only [chain.go, hparent, ih]
  unfold chain
  rw [hgo, hs]

namespace Trie

structure Found (t : Trie) (live : Finset Addr) (l : Ledger) (r : Addr × Nat) : Prop where
  mem : r.1 ∈ live
  diff : r.2 = (t.nodes r.1).s.diff l
  start_lt : (t.nodes r.1).s.start < r.2
  child : r.2 = (t.nodes r.1).s.stop → ∀ c ∈ (t.nodes r.1).children,
    ¬l.descends ((t.nodes c).s.at (t.nodes c).s.start)

namespace find

variable (H : History genesis F) (h : Shape genesis F t.nodes t.root live) (hl : F l)
include H h hl

theorem diff_child_iff (hloc : loc ∈ live) (hc : c ∈ (t.nodes loc).children)
    : (t.nodes c).s.diff l > (t.nodes loc).s.stop ↔
        l.descends ((t.nodes c).s.at (t.nodes c).s.start) := by
  have hvc := h.valid c (h.edge loc hloc c hc).mem
  rw [← (h.edge loc hloc c hc).start]
  exact H.lt_diff_iff hvc hl (le_refl _) hvc.start_lt

theorem go_spec (fuel : Nat) (hcurr : curr ∈ live)
    (hpos : pos = (t.nodes curr).s.diff l) (hstart : (t.nodes curr).s.start < pos)
    (hfuel : l.seq + 2 ≤ fuel + pos) (hr : go t l fuel curr pos = r)
    : Found t live l r := by
  induction fuel generalizing curr pos with
  | zero =>
    have := H.diff_le_seq (h.valid curr hcurr) hl (by omega)
    omega
  | succ fuel ih =>
    unfold go at hr
    split at hr
    . next hstop =>
      split at hr
      . next child hchild =>
        have hmem := List.mem_of_find?_eq_some hchild
        have hgt : (t.nodes child).s.diff l > pos := by
          simpa using List.find?_some hchild
        apply ih (h.edge curr hcurr child hmem).mem rfl _ (by omega) hr
        rw [(h.edge curr hcurr child hmem).start]
        omega
      . next hnone =>
        subst hr
        refine ⟨hcurr, hpos, hstart, ?_⟩
        intro _ c hc
        rw [List.find?_eq_none] at hnone
        have := hnone c hc
        rw [← diff_child_iff H h hl hcurr hc, ← hstop]
        simpa using this
    . next hstop =>
      subst hr
      exact ⟨hcurr, hpos, hstart, fun heq => absurd heq hstop⟩

end find

theorem find_spec (H : History genesis F) (h : Shape genesis F t.nodes t.root live) (hl : F l)
    (hr : t.find l = r)
    : Found t live l r := by
  have hroot : (t.nodes t.root).s.start < (t.nodes t.root).s.diff l := by
    rw [H.lt_diff_iff (h.valid _ h.root_mem) hl (le_refl _) (h.valid _ h.root_mem).start_lt,
      h.root_span, descends_at_iff]
    exact ⟨zero_le _, by rw [H.ancestor_zero l hl, H.ancestor_zero genesis H.genesis_mem]⟩
  apply find.go_spec H h hl (l.seq + 1) h.root_mem rfl hroot (by omega) hr

theorem splitNode_eq (hloc : loc ∉ (t.nodes loc).children) (hfresh : loc ≠ t.size)
    (hchildren : t.size ∉ (t.nodes loc).children) (hnodup : (t.nodes loc).children.Nodup)
    (pfx oldSuffix : Span)
    : t.splitNode loc pfx oldSuffix = { t with
        nodes := fun x =>
          if x = loc then
            { t.nodes loc with s := pfx, tipSupport := 0, children := [t.size] }
          else if x = t.size then
            { t.nodes loc with s := oldSuffix, parent := some loc }
          else if x ∈ (t.nodes loc).children then
            { t.nodes x with parent := some t.size }
          else
            t.nodes x
        size := t.size + 1 } := by
  unfold splitNode
  dsimp only
  rw [foldl_modify _ hnodup]
  simp only [modify, alloc, Trie.mk.injEq, and_true]
  funext x
  by_cases hx : x = loc
  . subst hx
    simp [hloc, hfresh]
  by_cases hxs : x = t.size
  . subst hxs
    simp [hx, hchildren]
  . simp [hx, hxs]

theorem addChild_eq (hfresh : loc ≠ t.size) (newSuffix : Span)
    : t.addChild loc newSuffix = { t with
        nodes := fun x =>
          if x = loc then
            { t.nodes loc with children := (t.nodes loc).children ++ [t.size] }
          else if x = t.size then
            { newNodeFromSpan newSuffix with parent := some loc }
          else
            t.nodes x
        size := t.size + 1 } := by
  unfold addChild
  simp only [modify, alloc, Trie.mk.injEq, and_true]
  funext x
  by_cases hx : x = loc
  . subst hx
    simp [hfresh]
  by_cases hxs : x = t.size
  . subst hxs
    simp [hx]
  . simp [hx, hxs]

theorem changeSupport_eq (f : Nat → Nat) (hnodup : (chain t.nodes loc).Nodup)
    : t.changeSupport loc f = { t with
        nodes := fun x => { t.nodes x with
          tipSupport := if x = loc then f (t.nodes x).tipSupport else (t.nodes x).tipSupport
          branchSupport :=
            if x ∈ chain t.nodes loc then
              f (t.nodes x).branchSupport
            else
              (t.nodes x).branchSupport } } := by
  unfold changeSupport
  have hchain : chain (t.modify loc
      (fun n => { n with tipSupport := f n.tipSupport })).nodes loc = chain t.nodes loc := by
    apply chain_congr
    . intro x
      by_cases hx : x = loc
      . subst hx
        simp [modify]
      . simp [modify, hx]
    intro x
    by_cases hx : x = loc
    . subst hx
      simp [modify]
    . simp [modify, hx]
  dsimp only
  rw [hchain, foldl_modify _ hnodup]
  simp only [modify, Trie.mk.injEq, and_true]
  funext x
  by_cases hx : x = loc
  . subst hx
    simp [Shape.self_mem_chain]
  . by_cases hxc : x ∈ chain t.nodes loc <;> simp [hx, hxc]

end Trie

structure InvBut (genesis : Ledger) (F : Ledger → Prop) (t : Trie) (live : Finset Addr)
    (M : List Ledger) (loc : Addr) : Prop where
  shape : Shape genesis F t.nodes t.root live
  counts : Counts F t.nodes live M
  fresh : ∀ a ∈ live, a < t.size
  forks : ∀ a ∈ live, a ≠ t.root → a ≠ loc → (t.nodes a).tipSupport = 0 →
    2 ≤ (t.nodes a).children.length
  index : SeqIndex t.seqSupport t.seqKeys (seqSupportOf M)
  length_le : M.length ≤ maxUint32
  loc_mem : loc ∈ live

structure LeavesAt (genesis : Ledger) (F : Ledger → Prop) (t : Trie) (live : Finset Addr)
    (M : List Ledger) (loc : Addr) (l : Ledger) : Prop
    extends InvBut genesis F t live M loc where
  descends : l.descends (t.nodes loc).s.tip
  child : ∀ c ∈ (t.nodes loc).children, ¬l.descends ((t.nodes c).s.at (t.nodes c).s.start)
  loc_forks : loc ≠ t.root → (t.nodes loc).tipSupport = 0 → (t.nodes loc).children ≠ []

structure EndsAt (genesis : Ledger) (F : Ledger → Prop) (t : Trie) (live : Finset Addr)
    (M : List Ledger) (loc : Addr) (l : Ledger) : Prop
    extends InvBut genesis F t live M loc where
  tip : (t.nodes loc).s.tip = l.tip

namespace Inv

variable (H : History genesis F) (hinv : Inv genesis F t live M)
include H hinv

omit H in
theorem invBut (hloc : loc ∈ live) : InvBut genesis F t live M loc := by
  refine ⟨hinv.shape, hinv.counts, hinv.fresh, ?_, hinv.index, hinv.length_le, hloc⟩
  intro a ha hroot _
  exact hinv.forks a ha hroot

theorem leavesAt_of_find (hl : F l) (hr : t.find l = r) (hstop : r.2 = (t.nodes r.1).s.stop)
    : LeavesAt genesis F t live M r.1 l := by
  obtain ⟨hloc, hdiff, hstart, hchild⟩ := Trie.find_spec H hinv.shape hl hr
  have hv := hinv.shape.valid _ hloc
  constructor
  case toInvBut => exact hinv.invBut hloc
  case descends =>
    rw [tip_eq_at, ← H.lt_diff_iff hv hl (by omega) (by omega)]
    omega
  case child => exact hchild hstop
  case loc_forks =>
    intro hroot htip heq
    have := hinv.forks _ hloc hroot htip
    simp [heq] at this

theorem leavesAt_splitNode (hl : F l) (hr : t.find l = r) (hstop : r.2 ≠ (t.nodes r.1).s.stop)
    : LeavesAt genesis F
        (t.splitNode r.1
          { start := (t.nodes r.1).s.start, stop := r.2, ledger := (t.nodes r.1).s.ledger }
          { start := r.2, stop := (t.nodes r.1).s.stop, ledger := (t.nodes r.1).s.ledger })
        (insert t.size live) M r.1 l := by
  obtain ⟨hloc, hdiff, hstart, _⟩ := Trie.find_spec H hinv.shape hl hr
  have h := hinv.shape
  have hv := h.valid _ hloc
  have hlt : r.2 < (t.nodes r.1).s.stop := by
    have := hv.diff_le_stop (l := l)
    omega
  have hsize : t.size ∉ live := by
    intro hmem
    exact lt_irrefl _ (hinv.fresh _ hmem)
  have hne : ∀ a ∈ live, a ≠ t.size := fun a ha heq => hsize (heq ▸ ha)
  have hself : r.1 ∉ (t.nodes r.1).children := fun hmem => h.child_ne hloc hmem rfl
  have hsizech : t.size ∉ (t.nodes r.1).children := fun hmem => hsize (h.edge _ hloc _ hmem).mem
  rw [Trie.splitNode_eq hself (hne _ hloc) hsizech (h.nodup _ hloc)]
  generalize hnodes : (fun x => if x = r.1 then _ else _) = nodes'
  have hsplit : SplitAt t.nodes nodes' live r.1 t.size r.2 := by
    subst hnodes
    refine ⟨hloc, hsize, hstart, hlt, ?_, ?_, ?_, ?_⟩
    . simp
    . simp [(hne _ hloc).symm]
    . intro c hc
      simp [h.child_ne hloc hc, hne c (h.edge _ hloc c hc).mem, hc]
    intro x hx hxl hxc
    simp [hxl, hne x hx, hxc]
  constructor
  case toInvBut =>
    refine ⟨hsplit.shape h, hsplit.counts H h hinv.counts, ?_, ?_, hinv.index, hinv.length_le,
      mem_insert_of_mem hloc⟩
    . intro a ha
      rw [mem_insert] at ha
      cases ha with
      | inl ha =>
        rw [ha]
        exact lt_succ_self _
      | inr ha => exact lt_succ_of_lt (hinv.fresh a ha)
    intro a ha hroot hal
    rw [mem_insert] at ha
    dsimp only at *
    cases ha with
    | inl ha =>
      rw [ha, hsplit.sfx_eq]
      apply hinv.forks _ hloc
      intro heq
      rw [heq, h.root_span] at hstart hlt
      simp only at hstart hlt
      omega
    | inr ha =>
      rw [hsplit.eq_except_parent ha hal]
      exact hinv.forks a ha hroot
  case descends =>
    dsimp only
    rw [hsplit.loc_eq]
    have := (H.lt_diff_iff hv hl (q := r.2 - 1) (by omega) (by omega)).mp (by omega)
    exact this
  case child =>
    dsimp only
    rw [hsplit.loc_eq]
    intro c hc
    rw [List.mem_singleton] at hc
    rw [hc, hsplit.sfx_eq]
    intro hdesc
    have := (H.lt_diff_iff hv hl (q := r.2) (by omega) hlt).mpr hdesc
    omega
  case loc_forks =>
    intro _ _
    dsimp only
    rw [hsplit.loc_eq]
    simp

end Inv

namespace LeavesAt

variable (H : History genesis F) (hleaves : LeavesAt genesis F t live M loc l) (hl : F l)
include H hleaves hl

theorem endsAt (hseq : (t.nodes loc).s.stop = l.seq + 1) : EndsAt genesis F t live M loc l := by
  refine ⟨hleaves.toInvBut, ?_⟩
  have hdesc := hleaves.descends
  rw [tip_eq_at, descends_at_iff] at hdesc
  simp only [tip, Ledger.tip, hseq, Nat.add_sub_cancel] at *
  rw [← hdesc.2, H.ancestor_seq l hl]

theorem endsAt_addChild (hseq : (t.nodes loc).s.stop ≤ l.seq)
    : EndsAt genesis F
        (t.addChild loc { start := (t.nodes loc).s.stop, stop := l.seq + 1, ledger := l })
        (insert t.size live) M t.size l := by
  have h := hleaves.shape
  have hloc := hleaves.loc_mem
  have hsize : t.size ∉ live := by
    intro hmem
    exact lt_irrefl _ (hleaves.fresh _ hmem)
  have hne : ∀ a ∈ live, a ≠ t.size := fun a ha heq => hsize (heq ▸ ha)
  rw [Trie.addChild_eq (hne _ hloc)]
  generalize hnodes : (fun x => if x = loc then _ else _) = nodes'
  have hadd : ChildAdded F t.nodes nodes' live loc t.size l := by
    subst hnodes
    refine ⟨hloc, hsize, hl, hleaves.descends, hseq, hleaves.child, ?_, ?_, ?_⟩
    . simp
    . simp [(hne _ hloc).symm]
    intro x hx hxl
    simp [hxl, hne x hx]
  refine ⟨⟨hadd.shape h, hadd.counts H h hleaves.counts, ?_, ?_, hleaves.index,
    hleaves.length_le, mem_insert_self t.size live⟩, hadd.nn_tip H⟩
  . intro a ha
    rw [mem_insert] at ha
    cases ha with
    | inl ha =>
      rw [ha]
      exact lt_succ_self _
    | inr ha => exact lt_succ_of_lt (hleaves.fresh a ha)
  intro a ha hroot hal htip
  rw [mem_insert] at ha
  have ha := ha.resolve_left hal
  dsimp only at *
  by_cases halc : a = loc
  . rw [halc] at hroot htip
    rw [halc]
    rw [hadd.loc_eq] at *
    have := List.length_pos_of_ne_nil (hleaves.loc_forks hroot htip)
    rw [List.length_append, List.length_singleton]
    omega
  rw [hadd.other_eq a ha halc] at *
  exact hleaves.forks a ha hroot halc htip

theorem addNewSuffix
    (hr : t.addNewSuffix loc ((newSpanFromLedger l).fromSeq (t.nodes loc).s.stop) = r)
    : ∃ live', EndsAt genesis F r.2 live' M r.1 l := by
  have hdesc := hleaves.descends
  have := hleaves.shape.stop_pos hleaves.loc_mem
  rw [tip_eq_at, descends_at_iff] at hdesc
  by_cases hseq : (t.nodes loc).s.stop ≤ l.seq
  . rw [fromSeq_eq (zero_le _) (by simp only [newSpanFromLedger]; omega)] at hr
    subst hr
    exact ⟨_, hleaves.endsAt_addChild H hl hseq⟩
  have hseq : (t.nodes loc).s.stop = l.seq + 1 := by omega
  have hnone : (newSpanFromLedger l).fromSeq (l.seq + 1) = none := fromSeq_stop
  rw [hseq, hnone] at hr
  subst hr
  exact ⟨_, hleaves.endsAt H hl hseq⟩

end LeavesAt

theorem EndsAt.increase (H : History genesis F) (hends : EndsAt genesis F t live M loc l) (hl : F l)
    (hcount : 0 < count) (hfit : M.length + count ≤ maxUint32)
    : ∃ t', (t.increase loc count).seqSupportAdd l.seq count = .ok t' ∧
        Inv genesis F t' live (addSupport M l count) := by
  have h := hends.shape
  have hc := hends.counts
  have hloc := hends.loc_mem
  rw [Trie.increase, Trie.changeSupport_eq _ (h.chain_nodup H hloc)]
  generalize hnodes : (fun x => _ : Addr → Node) = nodes'
  have hseqSupport : seqSupportOf M l.seq ≤ M.length := List.countP_le_length
  obtain ⟨seqSupport, seqKeys, hadd, hindex'⟩ :=
    SeqIndex.seqSupportAdd (t := { t with nodes := nodes' }) hends.index hcount
      (Nat.le_trans (Nat.add_le_add_right hseqSupport count) hfit)
  refine ⟨_, hadd, ?_⟩
  have htip : ∀ a ∈ live,
      (nodes' a).tipSupport = (t.nodes a).tipSupport + if a = loc then count else 0 := by
    intro a ha
    rw [← hnodes]
    dsimp only
    have := hc.tipSupport_le ha
    split
    . rw [add32_eq (by omega)]
    . rfl
  constructor
  case shape =>
    apply h.congr
    all_goals
      intro a _
      rw [← hnodes]
  case counts =>
    apply hc.increase H h hloc hl hends.tip _ htip
    . intro a ha
      rw [← hnodes]
      dsimp only
      have := hc.branchSupport_le ha
      split
      . rw [add32_eq (by omega)]
      . rfl
    intro a _
    rw [← hnodes]
  case fresh => exact hends.fresh
  case forks =>
    intro a ha hroot hzero
    rw [htip a ha] at hzero
    have hchildren : (nodes' a).children = (t.nodes a).children := by rw [← hnodes]
    rw [hchildren]
    apply hends.forks a ha hroot
    . intro heq
      rw [if_pos heq] at hzero
      omega
    . omega
  case index =>
    apply hindex'.congr
    intro s
    rw [seqSupportOf, countP_addSupport]
    simp only [beq_iff_eq, seqSupportOf, eq_comm (a := s)]
  case length_le =>
    rw [length_addSupport]
    exact hfit

namespace Inv

variable (H : History genesis F) (hinv : Inv genesis F t live M)
include H hinv

theorem root_branchSupport : (t.nodes t.root).branchSupport = M.length := by
  rw [hinv.counts.branch _ hinv.shape.root_mem, branchSupportOf, List.countP_eq_length]
  intro x hx
  exact hinv.shape.descends_root H (hinv.counts.mem x hx)

theorem root_mem_chain (hloc : loc ∈ live) : t.root ∈ chain t.nodes loc := by
  have h := hinv.shape
  rw [h.mem_chain_iff H hloc h.root_mem]
  refine ⟨?_, h.descends_root H (h.valid loc hloc).mem⟩
  rw [h.root_span]
  exact h.stop_pos hloc

theorem insertGuard_eq_ok_iff (hloc : loc ∈ live) (atTip : Bool) (hcount : count ≤ maxUint32)
    : t.insertGuard loc atTip l.seq count = .ok () ↔ M.length + count ≤ maxUint32 := by
  have htip := hinv.counts.tipSupport_le hloc
  have hseq : seqSupportOf M l.seq ≤ M.length := List.countP_le_length
  unfold Trie.insertGuard
  rw [hinv.index.getD_lookup]
  constructor
  . intro hok
    split at hok
    . contradiction
    split at hok
    . contradiction
    . next hbranch =>
      simp only [List.any_eq_true, decide_eq_true_eq, not_exists, not_and] at hbranch
      have := hbranch _ (hinv.root_mem_chain H hloc)
      rw [hinv.root_branchSupport H] at this
      omega
  intro hfit
  rw [if_neg, if_neg, if_neg]
  . omega
  . simp only [List.any_eq_true, decide_eq_true_eq, not_exists, not_and]
    intro a ha
    have := hinv.counts.branchSupport_le (hinv.shape.mem_live_of_mem_chain hloc ha)
    omega
  . omega

theorem cutOldSuffix (hl : F l) (hr : t.find l = r)
    : ∃ t' live',
        t.cutOldSuffix r.1 ((t.nodes r.1).s.fromSeq r.2) ((t.nodes r.1).s.before r.2) = .ok t' ∧
          LeavesAt genesis F t' live' M r.1 l ∧ (t'.nodes r.1).s.stop = r.2 := by
  obtain ⟨hloc, hdiff, hstart, _⟩ := Trie.find_spec H hinv.shape hl hr
  have hv := hinv.shape.valid _ hloc
  have hle : r.2 ≤ (t.nodes r.1).s.stop := hdiff ▸ hv.diff_le_stop
  by_cases hstop : r.2 = (t.nodes r.1).s.stop
  . refine ⟨t, live, ?_, hinv.leavesAt_of_find H hl hr hstop, hstop.symm⟩
    rw [hstop, fromSeq_stop]
    rfl
  refine ⟨_, _, ?_, hinv.leavesAt_splitNode H hl hr hstop, ?_⟩
  . rw [fromSeq_eq (by omega) (by omega), before_eq hstart hle]
    rfl
  . simp [Trie.splitNode, Trie.modify]

theorem insert (hl : F l) (hseq : l.seq ≠ maxUint32) (hfit : M.length + count ≤ maxUint32)
    : ∃ t' live', t.insert l count = .ok t' ∧ Inv genesis F t' live' (addSupport M l count) := by
  unfold Trie.insert
  rw [if_neg hseq]
  by_cases hcount : count = 0
  . refine ⟨t, live, ?_, ?_⟩
    . rw [if_pos hcount]
    rw [hcount]
    simpa [addSupport] using hinv
  rw [if_neg hcount]
  generalize hr : t.find l = r
  have hloc := (Trie.find_spec H hinv.shape hl hr).1
  have hguard : ∀ atTip, t.insertGuard r.1 atTip l.seq count = .ok () := by
    intro atTip
    rwa [hinv.insertGuard_eq_ok_iff H hloc atTip (by omega)]
  obtain ⟨t₁, live₁, hcut, hleaves, hstop⟩ := hinv.cutOldSuffix H hl hr
  dsimp only
  rw [hguard]
  simp only [bind, Except.bind]
  rw [hcut]
  dsimp only
  rw [← hstop]
  generalize hadd : t₁.addNewSuffix r.1 _ = r₂
  obtain ⟨live₂, hends⟩ := hleaves.addNewSuffix H hl hadd
  obtain ⟨t', hok, hinv'⟩ := hends.increase H hl (by omega) hfit
  exact ⟨t', live₂, hok, hinv'⟩

theorem fit_of_insert (hl : F l) (hcount : count ≤ maxUint32) (hok : t.insert l count = .ok t')
    : l.seq ≠ maxUint32 ∧ M.length + count ≤ maxUint32 := by
  unfold Trie.insert at hok
  split at hok
  . contradiction
  . next hseq =>
    refine ⟨hseq, ?_⟩
    split at hok
    . next hzero =>
      rw [hzero]
      exact hinv.length_le
    generalize hr : t.find l = r at hok
    have hloc := (Trie.find_spec H hinv.shape hl hr).1
    dsimp only at hok
    generalize hatTip : (_ && _) = atTip at hok
    rw [← hinv.insertGuard_eq_ok_iff (l := l) H hloc atTip hcount]
    cases hguard : t.insertGuard r.1 atTip l.seq count with
    | error e =>
      rw [hguard] at hok
      contradiction
    | ok u => rfl

end Inv

end LedgerTrie
