import GoXrpl.LedgerTrie.Lemmas.Insert

open List LedgerTrie.Trie Function

namespace LedgerTrie

variable {count : Nat}

theorem eraseChild_perm (hmem : child ∈ children)
    : (eraseChild children child).Perm (children.erase child) := by
  unfold eraseChild
  cases hidx : children.findIdx? (· == child) with
  | none =>
    rw [findIdx?_eq_none_iff] at hidx
    have := hidx child hmem
    simp at this
  | some i =>
    rw [findIdx?_eq_some_iff_getElem] at hidx
    obtain ⟨hi, hchild, _⟩ := hidx
    rw [beq_iff_eq] at hchild
    have hget : children[children.length - 1] = children.getLastD child := by
      rw [getLastD_eq_getLast?, getLast?_eq_getElem?, getElem?_eq_getElem (by omega)]
      rfl
    generalize children.getLastD child = last at *
    have hne : children.set i last ≠ [] := by
      rw [← length_pos_iff, length_set]
      omega
    have hlast : (children.set i last).getLast hne = last := by
      rw [getLast_eq_getElem, getElem_set]
      split
      . rfl
      . simpa only [length_set] using hget
    -- Without the last child, the changed list is the old one without its entry at `i`.
    have hdrop : (children.set i last).dropLast.Perm (children.eraseIdx i) := by
      rw [← perm_cons last]
      apply List.Perm.trans _ (set_perm_cons_eraseIdx hi last)
      apply List.Perm.trans (perm_append_singleton _ _).symm
      have hconcat := dropLast_append_getLast hne
      rw [hlast] at hconcat
      rw [hconcat]
    apply hdrop.trans
    rw [← perm_cons child]
    apply List.Perm.trans _ (perm_cons_erase hmem)
    have hcons := getElem_cons_eraseIdx_perm hi
    rwa [hchild] at hcons

namespace InvBut

theorem inv (hbut : InvBut genesis F t live M loc)
    (hloc : loc ≠ t.root → (t.nodes loc).tipSupport = 0 → 2 ≤ (t.nodes loc).children.length)
    : Inv genesis F t live M := by
  refine ⟨hbut.shape, hbut.counts, hbut.fresh, ?_, hbut.index, hbut.length_le⟩
  intro a ha hroot
  by_cases hal : a = loc
  . rw [hal] at hroot ⊢
    exact hloc hroot
  . exact hbut.forks a ha hroot hal

variable (H : History genesis F) (hbut : InvBut genesis F t live M loc)
variable (hzero : (t.nodes loc).tipSupport = 0)
include H hbut hzero

theorem splice (hsplice : Spliced t.nodes nodes' live loc p)
    : InvBut genesis F { t with nodes := nodes' } (live.erase loc) M p := by
  have h := hbut.shape
  refine ⟨hsplice.shape h H, hsplice.counts hbut.counts hzero, ?_, ?_, hbut.index,
    hbut.length_le, ?_⟩
  . intro a ha
    exact hbut.fresh a (Finset.mem_of_mem_erase ha)
  . intro a ha haroot hap
    have hold := Finset.mem_of_mem_erase ha
    rw [hsplice.tipSupport_eq hold, hsplice.children_eq hold hap]
    exact hbut.forks a hold haroot (Finset.ne_of_mem_erase ha)
  . exact Finset.mem_erase.mpr ⟨(h.child_ne hsplice.p_mem hsplice.loc_child).symm, hsplice.p_mem⟩

variable (hp : p ∈ live) (hmem : loc ∈ (t.nodes p).children)
include hp hmem

theorem eraseLeaf (hleaf : (t.nodes loc).children = [])
    : InvBut genesis F
        (t.modify p (fun p => { p with children := eraseChild p.children loc }))
        (live.erase loc) M p := by
  apply hbut.splice H hzero
  constructor
  case loc_mem => exact hbut.loc_mem
  case p_mem => exact hp
  case loc_child => exact hmem
  case p_eq => simp
  case p_children =>
    rw [hleaf, update_self]
    exact eraseChild_perm hmem
  case other_eq =>
    intro x _ hxp _
    simp [hxp]
  all_goals simp [hleaf]

theorem merge (honly : (t.nodes loc).children = [child])
    : InvBut genesis F
        ((t.modify child (fun c =>
            { c with s := mergeSpans (t.nodes loc).s c.s, parent := some p })).modify p
          (fun p => { p with children := eraseChild (p.children ++ [child]) loc }))
        (live.erase loc) M p := by
  have h := hbut.shape
  have hloc := hbut.loc_mem
  have hchild : child ∈ (t.nodes loc).children := by
    rw [honly]
    exact mem_singleton_self child
  have hlt := h.start_lt_child hloc hchild
  have hltp := h.start_lt_child hp hmem
  have hcp : child ≠ p := by
    intro heq
    rw [heq] at hlt
    omega
  have hspan : mergeSpans (t.nodes loc).s (t.nodes child).s =
      { (t.nodes child).s with start := (t.nodes loc).s.start } := by
    have := (h.edge loc hloc child hchild).start
    have := (h.valid child (h.edge loc hloc child hchild).mem).start_lt
    unfold mergeSpans
    rw [if_pos (by omega), Nat.min_eq_right (by omega)]
  apply hbut.splice H hzero
  constructor
  case loc_mem => exact hloc
  case p_mem => exact hp
  case loc_child => exact hmem
  case only => simp [honly]
  case child_eq => simp [honly, Trie.modify, hcp, hspan]
  case p_eq => simp [Trie.modify, hcp.symm]
  case p_children =>
    simp only [Trie.modify, update_self, ne_eq, hcp.symm, not_false_eq_true,
      update_of_ne]
    apply (eraseChild_perm (mem_append_left _ hmem)).trans
    rw [erase_append_left _ hmem, honly]
    exact perm_append_singleton _ _
  case other_eq =>
    intro x _ hxp hxc
    rw [honly, mem_singleton] at hxc
    simp [Trie.modify, hxp, hxc]

end InvBut

namespace Trie.compact

theorem go_spec (H : History genesis F) (fuel : Nat) (hbut : InvBut genesis F t live M loc)
    (hfuel : (t.nodes loc).s.start < fuel)
    : ∃ t' live', go fuel t loc = .ok t' ∧ Inv genesis F t' live' M := by
  induction fuel generalizing t live loc with
  | zero => omega
  | succ fuel ih =>
    unfold go
    dsimp only
    split
    . next hzero =>
      have h := hbut.shape
      obtain ⟨p, hp, hparent, hmem⟩ := h.parent loc hbut.loc_mem hzero.2
      have hlt := h.start_lt_child hp hmem
      cases hchildren : (t.nodes loc).children with
      | nil =>
        rw [hparent]
        apply ih (hbut.eraseLeaf H hzero.1 hp hmem hchildren)
        simp only [modify, update_self]
        omega
      | cons child rest =>
        cases rest with
        | nil =>
          rw [hparent]
          have hcp : p ≠ child := by
            intro heq
            have := h.start_lt_child hbut.loc_mem (hchildren ▸ mem_singleton_self child)
            rw [← heq] at this
            omega
          apply ih (hbut.merge H hzero.1 hp hmem hchildren)
          simp only [modify, update_self, ne_eq, hcp, not_false_eq_true,
            update_of_ne]
          omega
        | cons child' rest =>
          rw [hparent]
          refine ⟨t, live, rfl, ?_⟩
          apply hbut.inv
          intro _ _
          rw [hchildren]
          simp
    . next hstop =>
      refine ⟨t, live, rfl, ?_⟩
      apply hbut.inv
      intro hroot htip
      exact absurd ⟨htip, hroot⟩ hstop

end Trie.compact

namespace Trie.findByIDWalk

variable {nodes : Addr → Node} {root : Addr} {id : LedgerID}

theorem sound (h : Shape genesis F nodes root live) (fuel : Nat)
    (hcurr : curr ∈ live) (hfind : findByIDWalk nodes id fuel curr = some a)
    : a ∈ live ∧ (nodes a).s.tip.id = id := by
  induction fuel generalizing curr with
  | zero => contradiction
  | succ fuel ih =>
    unfold findByIDWalk at hfind
    split at hfind
    . next hid =>
      cases hfind
      exact ⟨hcurr, hid⟩
    obtain ⟨c, hc, hfindc⟩ := exists_of_findSome?_eq_some hfind
    exact ih (h.edge curr hcurr c hc).mem hfindc

theorem exists_child (h : Shape genesis F nodes root live) (hn : n ∈ live)
    (hcurr : curr ∈ chain nodes n) (hne : curr ≠ n)
    : ∃ c ∈ (nodes curr).children, c ∈ chain nodes n := by
  revert hcurr hne
  refine h.induct (P := fun n => curr ∈ chain nodes n → curr ≠ n →
    ∃ c ∈ (nodes curr).children, c ∈ chain nodes n) ?_ ?_ hn
  . rw [h.chain_root, mem_singleton]
    exact fun heq hne => absurd heq hne
  intro p hp n hmem ih hcurr hne
  rw [h.chain_child hp hmem] at hcurr ⊢
  have hcurr := (mem_cons.mp hcurr).resolve_left hne
  by_cases hcp : curr = p
  . refine ⟨n, ?_, mem_cons_self⟩
    rwa [hcp]
  obtain ⟨c, hc, hcchain⟩ := ih hcurr hcp
  exact ⟨c, hc, mem_cons_of_mem _ hcchain⟩

theorem complete (H : History genesis F) (h : Shape genesis F nodes root live) {size : Nat}
    (hsize : ∀ a ∈ live, a < size) (hn : n ∈ live) (hid : (nodes n).s.tip.id = id)
    (fuel : Nat) (hcurr : curr ∈ chain nodes n)
    (hfuel : size < fuel + (chain nodes curr).length)
    : (findByIDWalk nodes id fuel curr).isSome := by
  induction fuel generalizing curr with
  | zero =>
    have := h.chain_length_le H hsize (h.mem_live_of_mem_chain hn hcurr)
    omega
  | succ fuel ih =>
    unfold findByIDWalk
    split
    . rfl
    . next hne =>
      have hcn : curr ≠ n := by
        intro heq
        rw [heq] at hne
        exact hne hid
      obtain ⟨c, hc, hcchain⟩ := exists_child h hn hcurr hcn
      rw [findSome?_isSome_iff]
      refine ⟨c, hc, ih hcchain ?_⟩
      rw [h.chain_child (h.mem_live_of_mem_chain hn hcurr) hc, length_cons]
      omega

end Trie.findByIDWalk

namespace Inv

variable (hinv : Inv genesis F t live M)
include hinv

theorem findByLedgerID_sound (hfind : t.findByLedgerID l = some loc)
    : loc ∈ live ∧ (t.nodes loc).s.tip.id = l.id := by
  exact findByIDWalk.sound hinv.shape t.size hinv.shape.root_mem hfind

theorem findByLedgerID_complete (H : History genesis F) {a : Addr} (ha : a ∈ live)
    (hid : (t.nodes a).s.tip.id = l.id)
    : (t.findByLedgerID l).isSome := by
  apply findByIDWalk.complete H hinv.shape hinv.fresh ha hid t.size (hinv.root_mem_chain H ha)
  have hroot : t.root ∈ chain t.nodes t.root := Shape.self_mem_chain t.root
  have := length_pos_of_mem hroot
  omega

theorem removeAt (H : History genesis F) (hl : F l) (hloc : loc ∈ live)
    (htip : (t.nodes loc).s.tip = l.tip) (hpos : (t.nodes loc).tipSupport ≠ 0)
    (hcount : count ≤ (t.nodes loc).tipSupport)
    : ∃ t₁ t' live', (t.decrease loc count).seqSupportSub l.seq count = .ok t₁ ∧
        t₁.compact loc = .ok t' ∧ Inv genesis F t' live' (removeSupport M l count) := by
  have h := hinv.shape
  have hc := hinv.counts
  have htipSupport := hc.tip loc hloc
  rw [htip] at htipSupport
  have hseq : tipSupportOf M l.tip ≤ seqSupportOf M l.seq := by
    apply countP_mono_left
    intro x _ hx
    simp only [beq_iff_eq] at *
    exact congrArg SpanTip.seq hx
  have hlen := hinv.length_le
  rw [decrease, changeSupport_eq _ (h.chain_nodup H hloc)]
  generalize hnodes : (fun x => _ : Addr → Node) = nodes'
  obtain ⟨seqSupport, seqKeys, hsub, hindex⟩ :=
    SeqIndex.seqSupportSub (t := { t with nodes := nodes' }) hinv.index
      (show 0 < seqSupportOf M l.seq by omega) (show count ≤ seqSupportOf M l.seq by omega)
  have hs : ∀ a ∈ live, (nodes' a).s = (t.nodes a).s := by
    intro a _
    rw [← hnodes]
  have htips : ∀ a ∈ live,
      (nodes' a).tipSupport = (t.nodes a).tipSupport - if a = loc then count else 0 := by
    intro a ha
    have := hc.tipSupport_le ha
    rw [← hnodes]
    dsimp only
    split
    . next heq =>
      rw [heq] at this ⊢
      rw [sub32_eq hcount (by omega)]
    . rfl
  have hbut : InvBut genesis F { t with nodes := nodes', seqSupport, seqKeys } live
      (removeSupport M l count) loc := by
    constructor
    case shape =>
      apply hinv.shape.congr
      all_goals
        intro a _
        rw [← hnodes]
    case counts =>
      apply hc.decrease H h hloc hl htip hs (by omega) htips
      intro a ha
      have hle := hc.branchSupport_le ha
      rw [← hnodes]
      dsimp only
      split
      . next hmem =>
        -- What supports `loc` supports every node above it.
        have hbranch : tipSupportOf M l.tip ≤ branchSupportOf M (t.nodes a).s.tip := by
          apply countP_mono_left
          intro x hx heq
          rw [beq_iff_eq] at heq
          rwa [h.descends_tip_iff H hloc ha (hc.mem x hx) (htip.trans heq.symm)]
        rw [hc.branch a ha] at hle ⊢
        rw [sub32_eq (by omega) (by omega)]
      . rfl
    case fresh => exact hinv.fresh
    case forks =>
      intro a ha hroot hal
      have hchildren : (nodes' a).children = (t.nodes a).children := by rw [← hnodes]
      rw [htips a ha, if_neg hal, hchildren]
      exact hinv.forks a ha hroot
    case index =>
      apply hindex.congr
      intro s
      rw [seqSupportOf, countP_removeSupport M l count _ (decide (l.seq = s))]
      . simp only [decide_eq_true_eq, eq_comm (a := s), seqSupportOf]
        rw [Nat.min_eq_left (by omega)]
      intro x _ hx
      have : x.seq = l.seq := congrArg SpanTip.seq hx
      rw [this]
      rfl
    case length_le =>
      have := (removeSupport_sublist M l count).length_le
      omega
    case loc_mem => exact hloc
  obtain ⟨t', live', hcompact, hinv'⟩ := compact.go_spec H
    ((nodes' loc).s.start + 1) hbut (by dsimp only; omega)
  exact ⟨_, t', live', hsub, hcompact, hinv'⟩

theorem remove_cases (H : History genesis F) (hl : F l) (count : Nat)
    : ((∀ a, t.findByLedgerID l = some a → (t.nodes a).tipSupport = 0) ∧
          t.remove l count = .ok (t, false)) ∨
      (∃ a ∈ live, (t.nodes a).s.tip.id = l.id ∧ (t.nodes a).s.tip.seq ≠ l.seq ∧
          t.remove l count = .error "ledgertrie: ledger sequence mismatch") ∨
      (∃ a ∈ live, (t.nodes a).s.tip = l.tip ∧ (t.nodes a).tipSupport ≠ 0 ∧
          ∃ t' live', t.remove l count = .ok (t', true) ∧
            Inv genesis F t' live' (removeSupport M l count)) := by
  unfold remove
  cases hfind : t.findByLedgerID l with
  | none => exact .inl ⟨by simp, rfl⟩
  | some a =>
    obtain ⟨ha, hid⟩ := hinv.findByLedgerID_sound hfind
    dsimp only
    split
    . next hzero =>
      refine .inl ⟨?_, rfl⟩
      intro a' ha'
      cases ha'
      exact hzero
    . next hpos =>
      right
      split
      . next hseq => exact .inl ⟨a, ha, hid, Ne.symm hseq, rfl⟩
      . next hseq =>
        right
        have hseq := Decidable.not_not.mp hseq
        have htip : (t.nodes a).s.tip = l.tip := by
          simp only [Ledger.tip, ← hid, hseq]
          rfl
        have htipSupport := hinv.counts.tip a ha
        rw [htip] at htipSupport
        have hle : tipSupportOf M l.tip ≤ seqSupportOf M l.seq := by
          apply countP_mono_left
          intro x _ hx
          simp only [beq_iff_eq] at *
          exact congrArg SpanTip.seq hx
        have hmin : (if count > (t.nodes a).tipSupport then (t.nodes a).tipSupport else count) =
            min count (tipSupportOf M l.tip) := by
          rw [htipSupport]
          split <;> omega
        rw [hmin, hinv.index.getD_lookup, hinv.index.lookup_eq]
        rw [if_neg]
        . obtain ⟨t₁, t', live', hsub, hcompact, hinv'⟩ := hinv.removeAt H hl ha htip hpos
            (show min count (tipSupportOf M l.tip) ≤ (t.nodes a).tipSupport by omega)
          refine ⟨a, ha, htip, hpos, t', live', ?_, ?_⟩
          . simp only [bind, Except.bind, hsub, hcompact]
          . rwa [removeSupport_min] at hinv'
        rw [if_neg (by omega)]
        simp only [Option.isNone_some, Bool.false_eq_true, or_false]
        omega

end Inv

end LedgerTrie
