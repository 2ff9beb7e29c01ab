import GoXrpl.TxQueue.Lemmas.Apply

open List Assoc

namespace TxQueue

open State (AccountID)

structure Candidate.CopiedTo (c : Candidate) (h : Heap) (c' : Candidate) (h' : Heap) : Prop where
  fields : c' = { c with addr := c'.addr, txn := c'.txn }
  progress : h'.progress c'.addr = h.progress c.addr
  new : h.next ≤ c'.addr
  allocated : c'.addr < h'.next
  unparsed : c'.blob = [] → c'.txn = none

namespace TxQ

theorem candidateLess_copied {parentHash : Hash256}
    (hc : c.CopiedTo h c' h') (hd : d.CopiedTo h d' h')
    : candidateLess parentHash c' d' = candidateLess parentHash c d := by
  rw [hc.fields, hd.fields]
  rfl

structure Cloner.Copying (sources : List Candidate) (h : Heap) (cl : Cloner) : Prop where
  next : h.next ≤ cl.h.next
  old : ∀ a < h.next, cl.h.progress a = h.progress a
  copied : ∀ a c', cl.candidates.lookup a = some c' →
    ∃ c ∈ sources, c.addr = a ∧ c.CopiedTo h c' cl.h
  distinct : ∀ a b c c', cl.candidates.lookup a = some c → cl.candidates.lookup b = some c' →
    c.addr = c'.addr → a = b

variable {h : Heap} {cl cl' : Cloner}

theorem Cloner.Copying.new (sources : List Candidate) (h : Heap)
    : Cloner.Copying sources h { candidates := ∅, h } where
  next := Nat.le_refl _
  old _ _ := rfl
  copied a c' hlookup := by cases hlookup
  distinct a b c c' hlookup := by cases hlookup

structure Forks (q : TxQ) (h : Heap) (q' : TxQ) (h' : Heap) (f : Candidate → Candidate) : Prop where
  copied : ∀ c ∈ q.byFee, c.CopiedTo h (f c) h'
  distinct : ∀ c ∈ q.byFee, ∀ d ∈ q.byFee, (f c).addr = (f d).addr → c = d
  rest : q' = { q with byFee := q'.byFee, byID := q'.byID, byAccount := q'.byAccount }
  byFee : q'.byFee = q.byFee.map f
  byID : ∀ id, q'.byID.lookup id = (q.byID.lookup id).map f
  byAccount : ∀ account, q'.byAccount.lookup account = (q.byAccount.lookup account).map fun aq =>
    { aq with transactions := mapValues (fun _ c => f c) aq.transactions }

theorem Forks.candidateAt (hforks : Forks q h q' h' f) (account : AccountID) (sp : SeqProxy)
    : q'.candidateAt account sp = (q.candidateAt account sp).map f := by
  unfold TxQ.candidateAt
  rw [hforks.byAccount]
  cases q.byAccount.lookup account with
  | none => rfl
  | some aq => exact lookup_mapValues _ _ _

theorem Forks.map_eq_some_iff (hforks : Forks q h q' h' f) {p : Candidate → Prop}
    (ho : ∀ c, o = some c ↔ c ∈ q.byFee ∧ p c) (hp : ∀ c ∈ q.byFee, p (f c) ↔ p c) (c' : Candidate)
    : o.map f = some c' ↔ c' ∈ q'.byFee ∧ p c' := by
  rw [Option.map_eq_some_iff, hforks.byFee, mem_map]
  constructor
  . rintro ⟨c, hc, rfl⟩
    obtain ⟨hmem, hpc⟩ := (ho c).mp hc
    exact ⟨⟨c, hmem, rfl⟩, (hp c hmem).mpr hpc⟩
  rintro ⟨⟨c, hmem, rfl⟩, hpc⟩
  exact ⟨c, (ho c).mpr ⟨hmem, (hp c hmem).mp hpc⟩, rfl⟩

theorem Forks.indexed (hforks : Forks q h q' h' f) (hq : q.Indexed) : q'.Indexed := by
  have hparent : q'.parentHash = q.parentHash := by rw [hforks.rest]
  refine ⟨⟨?_, ?_, ?_⟩, ?_, ?_⟩
  . rw [hforks.byFee]
    apply List.Nodup.map_on _ hq.nodup
    intro c hc d hd heq
    exact hforks.distinct c hc d hd (congrArg Candidate.addr heq)
  . rw [hforks.byFee, hparent]
    unfold Search.SortedBy
    rw [pairwise_map]
    apply List.Pairwise.imp_of_mem _ hq.sorted
    intro c d hc hd hless
    rw [candidateLess_copied (hforks.copied d hd) (hforks.copied c hc)]
    exact hless
  . intro id c'
    rw [hforks.byID]
    apply hforks.map_eq_some_iff (hq.byID id)
    intro c hc
    rw [(hforks.copied c hc).fields]
  . intro account sp c'
    rw [hforks.candidateAt]
    apply hforks.map_eq_some_iff (hq.byAccount account sp)
    intro c hc
    rw [(hforks.copied c hc).fields]
  intro c' hc' d' hd' haddr
  rw [hforks.byFee, mem_map] at hc' hd'
  obtain ⟨c, hc, rfl⟩ := hc'
  obtain ⟨d, hd, rfl⟩ := hd'
  rw [hforks.distinct d hd c hc haddr]

variable [TxCodec]

theorem cloneTxn_eq_some
    (hunparsed : c.blob = [] → c.txn = none) (hclone : cloneTxn c = some (blob, txn))
    : blob = c.blob ∧ (blob = [] → txn = none) := by
  unfold cloneTxn at hclone
  split at hclone
  . next hlength =>
    obtain ⟨parsed, _, heq⟩ := Option.map_eq_some_iff.mp hclone
    cases heq
    refine ⟨rfl, ?_⟩
    intro hempty
    rw [hempty] at hlength
    cases hlength
  . next hlength =>
    have hempty : c.blob = [] := eq_nil_of_length_eq_zero (by omega)
    rw [hunparsed hempty] at hclone
    cases hclone
    exact ⟨rfl, fun _ => rfl⟩

theorem Cloner.Copying.candidate (hcl : cl.Copying sources h)
    (hsources : ∀ c ∈ sources, c.addr < h.next ∧ (c.blob = [] → c.txn = none))
    (hc : c ∈ sources) (hclone : cl.candidate c = some cl')
    : cl'.Copying sources h ∧ (cl'.candidates.lookup c.addr).isSome
        ∧ ∀ a, (cl.candidates.lookup a).isSome → (cl'.candidates.lookup a).isSome := by
  unfold Cloner.candidate at hclone
  split at hclone
  . next hsome =>
    cases hclone
    refine ⟨hcl, ?_, fun _ ha => ha⟩
    rw [hsome]
    rfl
  . next hnone =>
    obtain ⟨⟨blob, txn⟩, htxn, hcl'⟩ := Option.map_eq_some_iff.mp hclone
    obtain ⟨rfl, hunparsed⟩ := cloneTxn_eq_some (hsources c hc).2 htxn
    subst hcl'
    have hold : ∀ a < cl.h.next, (cl.h.alloc (cl.h.progress c.addr)).progress a = cl.h.progress a := by
      intro a ha
      exact if_neg (Nat.ne_of_lt ha)
    have hbelow : ∀ a c', cl.candidates.lookup a = some c' → c'.addr < cl.h.next := by
      intro a c' hlookup
      obtain ⟨_, _, _, hcopied⟩ := hcl.copied a c' hlookup
      exact hcopied.allocated
    refine ⟨⟨Nat.le_succ_of_le hcl.next, ?_, ?_, ?_⟩, ?_, ?_⟩
    . intro a ha
      rw [hold a (Nat.lt_of_lt_of_le ha hcl.next)]
      exact hcl.old a ha
    . intro a c' hlookup
      rcases lookup_insert_cases hlookup with ⟨rfl, rfl⟩ | hlookup
      . refine ⟨c, hc, rfl, rfl, ?_, hcl.next, Nat.lt_succ_self _, hunparsed⟩
        show (if cl.h.next = cl.h.next then _ else _) = _
        rw [if_pos rfl]
        exact hcl.old _ (hsources c hc).1
      obtain ⟨d, hd, haddr, hcopied⟩ := hcl.copied a c' hlookup
      refine ⟨d, hd, haddr, hcopied.fields, ?_, hcopied.new, Nat.lt_succ_of_lt hcopied.allocated,
        hcopied.unparsed⟩
      rw [hold _ hcopied.allocated]
      exact hcopied.progress
    . intro a b d d' hd hd' haddr
      rcases lookup_insert_cases hd with ⟨rfl, rfl⟩ | hd
      . rcases lookup_insert_cases hd' with ⟨rfl, rfl⟩ | hd'
        . rfl
        . exact absurd haddr.symm (Nat.ne_of_lt (hbelow b d' hd'))
      rcases lookup_insert_cases hd' with ⟨rfl, rfl⟩ | hd'
      . exact absurd haddr (Nat.ne_of_lt (hbelow a d hd))
      . exact hcl.distinct a b d d' hd hd' haddr
    . dsimp only
      rw [AList.lookup_insert]
      rfl
    intro a ha
    by_cases heq : a = c.addr
    . rw [heq, AList.lookup_insert]
      rfl
    rw [AList.lookup_insert_ne heq]
    exact ha

theorem Cloner.Copying.all (hcl : cl.Copying sources h)
    (hsources : ∀ c ∈ sources, c.addr < h.next ∧ (c.blob = [] → c.txn = none))
    (hcs : cs ⊆ sources) (hall : cl.all cs = some cl')
    : cl'.Copying sources h ∧ (∀ c ∈ cs, (cl'.candidates.lookup c.addr).isSome)
        ∧ ∀ a, (cl.candidates.lookup a).isSome → (cl'.candidates.lookup a).isSome := by
  induction cs generalizing cl with
  | nil =>
    cases hall
    refine ⟨hcl, ?_, fun _ ha => ha⟩
    intro c hc
    cases hc
  | cons c cs ih =>
    obtain ⟨cl₁, hclone, hrest⟩ := Option.bind_eq_some_iff.mp hall
    obtain ⟨hcl₁, hhead, hkept⟩ := hcl.candidate hsources (hcs mem_cons_self) hclone
    obtain ⟨hcl', htail, hkept'⟩ := ih hcl₁ (subset_of_cons_subset hcs) hrest
    refine ⟨hcl', ?_, fun a ha => hkept' a (hkept a ha)⟩
    intro d hd
    rcases mem_cons.mp hd with rfl | hd
    . exact hkept' _ hhead
    . exact htail d hd

theorem Sound.fork (hq : q.Sound h) (hfork : q.fork h = some (q', h'))
    : h.next ≤ h'.next ∧ (∀ a < h.next, h'.progress a = h.progress a) ∧ ∃ f, Forks q h q' h' f := by
  obtain ⟨cl, hall, heq⟩ := Option.map_eq_some_iff.mp hfork
  cases heq
  have hsources : ∀ c ∈ q.byFee, c.addr < h.next ∧ (c.blob = [] → c.txn = none) := by
    intro c hc
    exact ⟨hq.allocated c hc, (hq.sourced c hc).unparsed⟩
  have hsub : q.byAccount.entries.flatMap (·.2.candidates) ++ q.byFee ++ q.byID.entries.map (·.2)
      ⊆ q.byFee := by
    intro c hc
    rw [mem_append, mem_append, mem_map] at hc
    rcases hc with (hc | hc) | ⟨⟨id, d⟩, hmem, rfl⟩
    . exact hq.indexed.mem_held_iff.mp hc
    . exact hc
    . exact ((hq.indexed.byID id d).mp (mem_entries_iff.mp hmem)).1
  obtain ⟨hcopying, hdone, _⟩ := (Cloner.Copying.new q.byFee h).all hsources hsub hall
  have hlookup : ∀ c ∈ q.byFee, cl.candidates.lookup c.addr = some (cl.cloned c) := by
    intro c hc
    have hsome := hdone c (by simp [hc])
    obtain ⟨c', hc'⟩ := Option.isSome_iff_exists.mp hsome
    unfold Cloner.cloned
    rw [hc']
    rfl
  refine ⟨hcopying.next, hcopying.old, cl.cloned, ?_, ?_, rfl, rfl, ?_, ?_⟩
  . intro c hc
    obtain ⟨d, hd, haddr, hcopied⟩ := hcopying.copied _ _ (hlookup c hc)
    rw [hq.indexed.known c hc d hd haddr] at hcopied
    exact hcopied
  . intro c hc d hd haddr
    have hsame := hcopying.distinct _ _ _ _ (hlookup c hc) (hlookup d hd) haddr
    exact hq.indexed.known d hd c hc hsame
  . intro id
    exact lookup_mapValues _ _ _
  intro account
  exact lookup_mapValues _ _ _

theorem Forks.sound (hforks : Forks q h q' h' f) (hq : q.Sound h) : q'.Sound h' := by
  refine ⟨hforks.indexed hq.indexed, ?_, ?_⟩
  . intro c' hc'
    rw [hforks.byFee, mem_map] at hc'
    obtain ⟨c, hc, rfl⟩ := hc'
    have hcopied := hforks.copied c hc
    refine ⟨?_, hcopied.unparsed⟩
    rw [hcopied.fields]
    exact (hq.sourced c hc).origin
  intro c' hc'
  rw [hforks.byFee, mem_map] at hc'
  obtain ⟨c, hc, rfl⟩ := hc'
  exact (hforks.copied c hc).allocated

end TxQ

end TxQueue
