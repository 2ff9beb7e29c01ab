import GoXrpl.LedgerTrie.Lemmas.Insert

open List

namespace LedgerTrie

variable {nodes : Addr → Node} {root : Addr}

private theorem sum_map_countP_cons (C : List Addr) (p : Addr → Ledger → Bool) (x : Ledger)
    (M : List Ledger)
    : (C.map (fun c => (x :: M).countP (p c))).sum =
        (C.map (fun c => M.countP (p c))).sum + C.countP (fun c => p c x) := by
  induction C with
  | nil => rfl
  | cons c C ih =>
    simp only [List.map_cons, List.sum_cons, List.countP_cons] at *
    omega

private theorem countP_add_of_disjoint (M : List Ledger) (p q : Ledger → Bool)
    (hdisjoint : ∀ x, p x → q x = false)
    : M.countP p + M.countP q = M.countP (fun x => p x || q x) := by
  induction M with
  | nil => rfl
  | cons x M ih =>
    have hx := hdisjoint x
    simp only [List.countP_cons]
    rw [← ih]
    cases hp : p x with
    | false =>
      simp only [Bool.false_or, Bool.false_eq_true, ↓reduceIte]
      omega
    | true =>
      simp only [hx hp, Bool.or_false, Bool.false_eq_true, ↓reduceIte]
      omega

namespace Counts

variable (H : History genesis F) (h : Shape genesis F nodes root live) (hc : Counts F nodes live M)
include H h hc

theorem descends_split (ha : a ∈ live) (hx : x ∈ M)
    : (if x.descends (nodes a).s.tip then 1 else 0) =
        (if x.tip == (nodes a).s.tip then 1 else 0) +
          (nodes a).children.countP (fun c => x.descends (nodes c).s.tip) := by
  have hxF := hc.mem x hx
  have hastop := h.stop_pos ha
  -- Whatever is below a child is below `a`, and not at its tip.
  have hbelow : ∀ c ∈ (nodes a).children, x.descends (nodes c).s.tip →
      x.descends (nodes a).s.tip ∧ (nodes a).s.stop ≤ x.seq := by
    intro c hcmem hdesc
    have hv := h.valid c (h.edge a ha c hcmem).mem
    have hstart := (h.edge a ha c hcmem).start
    have := hv.start_lt
    have := hv.stop_le
    refine ⟨?_, ?_⟩
    . rw [Span.tip_eq_at, ← h.child_at H ha hcmem (by omega)]
      exact H.descends_of_le hxF hv.mem (by omega) (by omega) hdesc
    rw [Span.tip_eq_at, Span.descends_at_iff] at hdesc
    omega
  by_cases hdesc : x.descends (nodes a).s.tip
  . have hdesc' := hdesc
    rw [Span.tip_eq_at, Span.descends_at_iff] at hdesc'
    rw [if_pos hdesc]
    cases Nat.lt_or_ge x.seq (nodes a).s.stop with
    | inl hlt =>
      have hseq : x.seq = (nodes a).s.stop - 1 := by omega
      have htip : x.tip = (nodes a).s.tip := by
        simp only [Ledger.tip, Span.tip, ← hseq, SpanTip.mk.injEq, true_and]
        rw [← H.ancestor_seq x hxF, hseq, hdesc'.2]
      have hzero : (nodes a).children.countP (fun c => x.descends (nodes c).s.tip) = 0 := by
        rw [countP_eq_zero]
        intro c hcmem hcdesc
        have := (hbelow c hcmem hcdesc).2
        omega
      rw [hzero, htip]
      simp
    | inr hge =>
      have htip : x.tip ≠ (nodes a).s.tip := by
        intro heq
        have : x.seq = (nodes a).s.stop - 1 := congrArg SpanTip.seq heq
        omega
      obtain ⟨c, hcmem, hstart⟩ : ∃ c ∈ (nodes a).children,
          x.descends ((nodes c).s.at (nodes c).s.start) := by
        apply Classical.byContradiction
        intro hnone
        apply hc.not_descends_of_forall_child H h ha hxF hdesc hge _ hx hge rfl
        intro c hcmem hcdesc
        exact hnone ⟨c, hcmem, hcdesc⟩
      have hclive := (h.edge a ha c hcmem).mem
      have hctip := hc.descends_tip_of_at H h hx hclive (Nat.le_refl _)
        (h.valid c hclive).start_lt hstart
      have hone : (nodes a).children.countP (fun d => x.descends (nodes d).s.tip) = 1 := by
        rw [← count_eq_one_of_mem (h.nodup a ha) hcmem, count]
        apply countP_congr
        intro d hdmem
        rw [beq_iff_eq]
        constructor
        . intro hddesc
          have hvd := h.valid d (h.edge a ha d hdmem).mem
          have := hvd.start_lt
          have := hvd.stop_le
          have hdstart := H.descends_of_le hxF hvd.mem (p := (nodes d).s.start) (by omega)
            (by omega) hddesc
          rw [Span.descends_at_iff] at hstart hdstart
          apply h.startID_inj a ha d hdmem c hcmem
          unfold Span.startID
          rw [← hstart.2, ← hdstart.2, (h.edge a ha c hcmem).start, (h.edge a ha d hdmem).start]
        intro heq
        rwa [heq]
      rw [hone]
      simp [htip]
  have hzero : (nodes a).children.countP (fun c => x.descends (nodes c).s.tip) = 0 := by
    rw [countP_eq_zero]
    intro c hcmem hcdesc
    exact hdesc (hbelow c hcmem hcdesc).1
  have htip : x.tip ≠ (nodes a).s.tip := by
    intro heq
    apply hdesc
    rw [← heq]
    exact H.descends_tip hxF
  rw [hzero]
  simp [hdesc, htip]

theorem branchSupport_eq_sum (ha : a ∈ live)
    : (nodes a).tipSupport + ((nodes a).children.map (fun c => (nodes c).branchSupport)).sum =
        (nodes a).branchSupport := by
  have hmap : (nodes a).children.map (fun c => (nodes c).branchSupport) =
      (nodes a).children.map (fun c => branchSupportOf M (nodes c).s.tip) := by
    apply map_congr_left
    intro c hcmem
    exact hc.branch c (h.edge a ha c hcmem).mem
  rw [hmap, hc.tip a ha, hc.branch a ha]
  have hsplit : ∀ x ∈ M, _ := fun x hx => hc.descends_split H h ha hx
  clear hc hmap
  induction M with
  | nil => simp [tipSupportOf, branchSupportOf]
  | cons x M ih =>
    have ih := ih (fun y hy => hsplit y (mem_cons_of_mem _ hy))
    have hx := hsplit x mem_cons_self
    simp only [tipSupportOf, branchSupportOf] at *
    rw [sum_map_countP_cons _ (fun c x => x.descends (nodes c).s.tip)]
    simp only [countP_cons]
    omega

end Counts

namespace Trie

theorem checkSeqKeys_of_index {seqSupport : AList (fun _ : Nat => Nat)} {f : Nat → Nat}
    (hlookup : ∀ s, seqSupport.lookup s = if f s = 0 then none else some (f s))
    (seqKeys : List Nat) (hsorted : seqKeys.Pairwise (· < ·)) (hmem : ∀ s ∈ seqKeys, f s ≠ 0)
    (prev : Option Nat) (hprev : ∀ p ∈ prev, ∀ s ∈ seqKeys, p < s)
    : checkSeqKeys seqSupport prev seqKeys := by
  induction seqKeys generalizing prev with
  | nil => rfl
  | cons seq seqKeys ih =>
    rw [pairwise_cons] at hsorted
    have hseq := hmem seq mem_cons_self
    unfold checkSeqKeys
    rw [Bool.and_eq_true, Bool.and_eq_true]
    refine ⟨⟨?_, ?_⟩, ?_⟩
    . cases prev with
      | none => rfl
      | some p => simpa using hprev p rfl seq mem_cons_self
    . rw [hlookup, if_neg hseq]
      simpa using hseq
    apply ih hsorted.2 (fun s hs => hmem s (mem_cons_of_mem _ hs))
    intro p hp s hs
    cases hp
    exact hsorted.1 s hs

namespace checkNodes

def visitedSupport (nodes : Addr → Node) (visited : List Addr) (seq : Nat) : Nat :=
  (visited.map (fun a => if (nodes a).s.stop - 1 = seq then (nodes a).tipSupport else 0)).sum

structure Progress (nodes : Addr → Node) (root : Addr) (live : Finset Addr)
    (visited stack : List Addr) (expected : AList (fun _ : Nat => Nat)) : Prop where
  nodup : (visited ++ stack).Nodup
  mem_live : ∀ a ∈ visited ++ stack, a ∈ live
  root_mem : root ∈ visited ++ stack
  parent : ∀ a ∈ visited ++ stack, a ≠ root → ∃ p ∈ visited, a ∈ (nodes p).children
  child : ∀ a ∈ visited, ∀ c ∈ (nodes a).children, c ∈ visited ++ stack
  lookup_eq : ∀ s, expected.lookup s =
    if visitedSupport nodes visited s = 0 then none else some (visitedSupport nodes visited s)

variable (H : History genesis F) (h : Shape genesis F nodes root live) (hc : Counts F nodes live M)
include H h hc

section

variable (visited : List Addr) (hnodup : visited.Nodup) (hlive : ∀ a ∈ visited, a ∈ live) (seq : Nat)

include visited hnodup hlive seq

theorem visitedSupport_eq
    : visitedSupport nodes visited seq =
        M.countP (fun x => x.seq == seq && visited.any (fun a => x.tip == (nodes a).s.tip)) := by
  induction visited with
  | nil => simp [visitedSupport]
  | cons a visited ih =>
    rw [nodup_cons] at hnodup
    have ha := hlive a mem_cons_self
    have ih := ih hnodup.2 (fun b hb => hlive b (mem_cons_of_mem _ hb))
    have hhead : (if (nodes a).s.stop - 1 = seq then (nodes a).tipSupport else 0) =
        M.countP (fun x => x.seq == seq && x.tip == (nodes a).s.tip) := by
      rw [hc.tip a ha]
      split
      . next hseq =>
        apply countP_congr
        intro x _
        simp only [beq_iff_eq, Bool.and_eq_true, iff_and_self]
        intro htip
        rw [← hseq]
        exact congrArg SpanTip.seq htip
      . next hseq =>
        apply Eq.symm
        rw [countP_eq_zero]
        intro x _ hx
        simp only [beq_iff_eq, Bool.and_eq_true] at hx
        apply hseq
        rw [← hx.1]
        exact (congrArg SpanTip.seq hx.2).symm
    unfold visitedSupport at *
    rw [map_cons, sum_cons, ih, hhead, countP_add_of_disjoint]
    . simp only [any_cons, Bool.and_or_distrib_left]
    -- No ledger is the tip of `a` and of a node visited before.
    intro x hx
    simp only [beq_iff_eq, Bool.and_eq_true] at hx
    rw [Bool.and_eq_false_iff, any_eq_false]
    right
    intro b hb heq
    rw [beq_iff_eq, hx.2] at heq
    have := h.eq_of_tip H ha (hlive b (mem_cons_of_mem _ hb)) heq
    rw [← this] at hb
    exact hnodup.1 hb

theorem visitedSupport_le : visitedSupport nodes visited seq ≤ seqSupportOf M seq := by
  rw [visitedSupport_eq H h hc visited hnodup hlive]
  apply countP_mono_left
  intro x _ hx
  rw [Bool.and_eq_true] at hx
  exact hx.1

end

omit H h hc in
theorem visitedSupport_concat (visited : List Addr) (a : Addr) (seq : Nat)
    : visitedSupport nodes (visited ++ [a]) seq =
        visitedSupport nodes visited seq +
          if (nodes a).s.stop - 1 = seq then (nodes a).tipSupport else 0 := by
  simp [visitedSupport]

omit H hc in
theorem Progress.step (hprog : Progress nodes root live visited (curr :: stack) expected)
    : Progress nodes root live (visited ++ [curr]) ((nodes curr).children.reverse ++ stack)
        (if (nodes curr).tipSupport ≠ 0 then
          expected.insert ((nodes curr).s.stop - 1)
            ((expected.lookup ((nodes curr).s.stop - 1)).getD 0 + (nodes curr).tipSupport)
        else
          expected) := by
  have hcurr : curr ∈ live := hprog.mem_live curr (by simp)
  have hnodup := hprog.nodup
  have hnew : ∀ c ∈ (nodes curr).children, c ∉ visited ++ curr :: stack := by
    intro c hcmem hmem
    obtain ⟨p, hp, hpc⟩ := hprog.parent c hmem (h.child_ne_root hcurr hcmem)
    have hpcurr := h.parent_unique (hprog.mem_live p (mem_append_left _ hp)) hcurr hpc hcmem
    rw [hpcurr] at hp
    exact (nodup_append.mp hnodup).2.2 curr hp curr mem_cons_self rfl
  have hperm : (visited ++ [curr] ++ ((nodes curr).children.reverse ++ stack)).Perm
      (visited ++ curr :: stack ++ (nodes curr).children) := by
    rw [append_assoc, append_assoc, singleton_append, cons_append]
    apply List.Perm.append_left
    apply List.Perm.cons
    apply List.Perm.trans perm_append_comm
    apply List.Perm.append_left
    exact reverse_perm _
  constructor
  case nodup =>
    rw [hperm.nodup_iff, nodup_append]
    refine ⟨hnodup, h.nodup curr hcurr, ?_⟩
    intro a ha c hcmem heq
    rw [heq] at ha
    exact hnew c hcmem ha
  case mem_live =>
    intro a ha
    rw [hperm.mem_iff, mem_append] at ha
    cases ha with
    | inl ha => exact hprog.mem_live a ha
    | inr ha => exact (h.edge curr hcurr a ha).mem
  case root_mem =>
    rw [hperm.mem_iff]
    exact mem_append_left _ hprog.root_mem
  case parent =>
    intro a ha hroot
    rw [hperm.mem_iff, mem_append] at ha
    cases ha with
    | inl ha =>
      obtain ⟨p, hp, hpa⟩ := hprog.parent a ha hroot
      exact ⟨p, mem_append_left _ hp, hpa⟩
    | inr ha => exact ⟨curr, mem_append_right _ (mem_singleton_self curr), ha⟩
  case child =>
    intro a ha c hcmem
    rw [hperm.mem_iff]
    rw [mem_append, mem_singleton] at ha
    cases ha with
    | inl ha => exact mem_append_left _ (hprog.child a ha c hcmem)
    | inr ha =>
      rw [ha] at hcmem
      exact mem_append_right _ hcmem
  case lookup_eq =>
    intro s
    rw [visitedSupport_concat]
    have hgetD : ∀ s, (expected.lookup s).getD 0 = visitedSupport nodes visited s := by
      intro s
      rw [hprog.lookup_eq]
      split
      . next hzero => rw [hzero]; rfl
      . rfl
    rw [hgetD]
    by_cases hzero : (nodes curr).tipSupport = 0
    . simp only [hzero, ne_eq, not_true_eq_false, ↓reduceIte, ite_self, Nat.add_zero]
      exact hprog.lookup_eq s
    rw [if_pos hzero]
    by_cases hs : s = (nodes curr).s.stop - 1
    . rw [hs, AList.lookup_insert, if_pos rfl, if_neg (by omega)]
    . rw [AList.lookup_insert_ne hs, hprog.lookup_eq, if_neg (Ne.symm hs), Nat.add_zero]

theorem spec {size : Nat} (hsize : ∀ a ∈ live, a < size) (hlen : M.length ≤ maxUint32)
    (hforks : ∀ a ∈ live, a ≠ root → (nodes a).tipSupport = 0 → 2 ≤ (nodes a).children.length)
    (fuel : Nat) (visited stack : List Addr) (expected : AList (fun _ : Nat => Nat))
    (hprog : Progress nodes root live visited stack expected) (hfuel : size ≤ visited.length + fuel)
    : ∃ visited' expected', checkNodes nodes root fuel stack expected = some expected' ∧
        Progress nodes root live visited' [] expected' := by
  induction fuel generalizing visited stack expected with
  | zero =>
    cases stack with
    | nil => exact ⟨visited, expected, rfl, hprog⟩
    | cons curr stack =>
      have hcard := length_le_of_nodup hprog.nodup fun a ha => hsize a (hprog.mem_live a ha)
      rw [length_append, length_cons] at hcard
      omega
  | succ fuel ih =>
    cases stack with
    | nil => exact ⟨visited, expected, rfl, hprog⟩
    | cons curr stack =>
      have hcurr : curr ∈ live := hprog.mem_live curr (by simp)
      have hstep := hprog.step h
      have hvisited : (visited ++ [curr]).Nodup := (nodup_append.mp hstep.nodup).1
      have hsum : ((expected.lookup ((nodes curr).s.stop - 1)).getD 0 + (nodes curr).tipSupport) ≤
          maxUint32 := by
        have hle := visitedSupport_le H h hc (visited ++ [curr]) hvisited
          (fun a ha => hstep.mem_live a (mem_append_left _ ha)) ((nodes curr).s.stop - 1)
        have : seqSupportOf M ((nodes curr).s.stop - 1) ≤ M.length := countP_le_length
        rw [visitedSupport_concat, if_pos rfl] at hle
        rw [hprog.lookup_eq]
        split
        . next hzero =>
          simp only [Option.getD_none]
          omega
        simp only [Option.getD_some]
        omega
      have hbranch := hc.branchSupport_eq_sum H h hcurr
      have hle := hc.branchSupport_le hcurr
      have hstart := (h.valid curr hcurr).start_lt
      unfold checkNodes
      rw [if_neg (by omega), if_neg, if_neg (by omega), if_neg, if_neg (by omega)]
      . apply ih _ _ _ hstep
        rw [length_append, length_singleton]
        omega
      . rw [Decidable.not_not, all_eq_true]
        intro c hcmem
        rw [decide_eq_true_eq]
        exact (h.edge curr hcurr c hcmem).parent
      intro hbad
      have := hforks curr hcurr hbad.1 hbad.2.1
      omega

end checkNodes

end Trie

theorem Inv.checkInvariants {t : Trie} (H : History genesis F) (hinv : Inv genesis F t live M)
    : t.checkInvariants := by
  have h := hinv.shape
  have hc := hinv.counts
  have hprog : Trie.checkNodes.Progress t.nodes t.root live [] [t.root] ∅ := by
    constructor
    case nodup => simp
    case mem_live => simp [h.root_mem]
    case root_mem => simp
    case parent =>
      intro a ha hroot
      simp only [nil_append, mem_singleton] at ha
      exact absurd ha hroot
    case child => simp
    case lookup_eq => simp [Trie.checkNodes.visitedSupport]
  obtain ⟨visited, expected, hwalk, hdone⟩ := Trie.checkNodes.spec H h hc hinv.fresh hinv.length_le
    hinv.forks t.size [] [t.root] ∅ hprog (by simp)
  have hall : ∀ a ∈ live, a ∈ visited := by
    intro a ha
    refine h.induct (P := (· ∈ visited)) ?_ ?_ ha
    . simpa using hdone.root_mem
    intro p _ c hc ih
    simpa using hdone.child p ih c hc
  have hsupport : ∀ s, Trie.checkNodes.visitedSupport t.nodes visited s = seqSupportOf M s := by
    intro s
    rw [Trie.checkNodes.visitedSupport_eq H h hc visited (by simpa using hdone.nodup)
      (fun a ha => hdone.mem_live a (by simpa using ha))]
    apply countP_congr
    intro x hx
    obtain ⟨a, ha, htip⟩ := hc.held x hx
    simp only [Bool.and_eq_true, and_iff_left_iff_imp, any_eq_true, beq_iff_eq]
    intro _
    exact ⟨a, hall a ha, htip.symm⟩
  have hexpected : SeqIndex expected t.seqKeys (seqSupportOf M) := by
    refine ⟨?_, hinv.index.sorted, hinv.index.mem_iff⟩
    intro s
    rw [hdone.lookup_eq, hsupport]
  unfold Trie.checkInvariants
  rw [h.root_parent, hwalk, if_neg (by simp), if_neg (by simp [hinv.index.length_eq]), if_neg]
  . simp only [Bool.and_eq_true, beq_iff_eq, all_eq_true]
    refine ⟨?_, ?_⟩
    . rw [← hexpected.length_eq, hinv.index.length_eq]
    intro k _
    rw [hinv.index.getD_lookup, hexpected.getD_lookup]
  rw [Decidable.not_not]
  apply Trie.checkSeqKeys_of_index hinv.index.lookup_eq _ hinv.index.sorted
  . intro s hs
    exact (hinv.index.mem_iff s).mp hs
  . simp

end LedgerTrie
