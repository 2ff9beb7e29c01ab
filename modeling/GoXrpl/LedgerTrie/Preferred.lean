import GoXrpl.LedgerTrie.Refinement

/-!
This module contains the main result about `GetPreferred`: on every trie that can be reached, it
returns the ledger at which the walk over the supported ledgers stops.
-/

namespace LedgerTrie

def Op.supported : Op → Bool → List Ledger → List Ledger
  | insert l count, _, M => addSupport M l count.toNat
  | remove l count, true, M => removeSupport M l count.toNat
  | remove _ _, false, M => M
  | getPreferred _, _, M => M

def supported : List Op → List Bool → List Ledger → List Ledger
  | op :: ops, b :: bs, M => supported ops bs (op.supported b M)
  | _, _, M => M

def preferred (M : List Ledger) (genesis : Ledger) (largestIssued : Nat) : Option SpanTip :=
  if M.isEmpty then none else some (naivePreferred M genesis largestIssued)

namespace Inv

variable (H : History genesis F)
include H

theorem of_exec (hinv : Inv genesis F t live M) {op : Op} (hop : ∀ l ∈ op.ledger?, F l)
    (hexec : op.exec t = .ok (t', b))
    : ∃ live', Inv genesis F t' live' (op.supported b M) := by
  cases op with
  | insert l count =>
    have hl := hop l rfl
    simp only [Op.exec, bind, Except.bind] at hexec
    split at hexec
    . contradiction
    . next t₁ hinsert =>
      cases hexec
      have hcount : count.toNat ≤ maxUint32 := by
        have := count.toNat_lt
        unfold maxUint32
        omega
      obtain ⟨hseq, hfit⟩ := hinv.fit_of_insert H hl hcount hinsert
      obtain ⟨t₂, live', hok, hinv'⟩ := hinv.insert H hl hseq hfit
      rw [hinsert] at hok
      cases hok
      exact ⟨live', hinv'⟩
  | remove l count =>
    have hl := hop l rfl
    simp only [Op.exec] at hexec
    cases hinv.remove_cases H hl count.toNat with
    | inl habsent =>
      rw [habsent.2] at hexec
      cases hexec
      exact ⟨live, hinv⟩
    | inr hpresent =>
      cases hpresent with
      | inl hmismatch =>
        obtain ⟨a, _, _, _, herror⟩ := hmismatch
        rw [herror] at hexec
        contradiction
      | inr hremove =>
        obtain ⟨a, _, _, _, t₁, live', hok, hinv'⟩ := hremove
        rw [hok] at hexec
        cases hexec
        exact ⟨live', hinv'⟩
  | getPreferred largestIssued =>
    simp only [Op.exec, bind, Except.bind] at hexec
    by_cases hM : M = []
    . subst hM
      rw [hinv.getPreferred_nil H] at hexec
      cases hexec
      exact ⟨live, hinv⟩
    obtain ⟨t₁, q, hok, hinv', _⟩ := hinv.getPreferred_of_ne_nil H hM largestIssued.toNat
    rw [hok] at hexec
    cases hexec
    exact ⟨live, hinv'⟩

theorem of_run (hinv : Inv genesis F t live M) {ops : List Op}
    (hops : ∀ op ∈ ops, ∀ l ∈ op.ledger?, F l) (hrun : LedgerTrie.run ops t = .ok (t', bs))
    : ∃ live', Inv genesis F t' live' (supported ops bs M) := by
  induction ops generalizing t live M bs with
  | nil =>
    cases hrun
    exact ⟨live, hinv⟩
  | cons op ops ih =>
    simp only [LedgerTrie.run, bind, Except.bind] at hrun
    split at hrun
    . contradiction
    . next r hexec =>
      split at hrun
      . contradiction
      . next r' hrun' =>
        cases hrun
        obtain ⟨live₁, hinv₁⟩ := hinv.of_exec H (hops op List.mem_cons_self) hexec
        exact ih hinv₁ (fun op hop => hops op (List.mem_cons_of_mem _ hop)) hrun'

theorem getPreferred_eq (hinv : Inv genesis F t live M) (largestIssued : Nat)
    : (t.getPreferred largestIssued).map Prod.snd = .ok (preferred M genesis largestIssued) := by
  by_cases hM : M = []
  . subst hM
    rw [hinv.getPreferred_nil H]
    rfl
  obtain ⟨t', q, hok, _, hwalks⟩ := hinv.getPreferred_of_ne_nil H hM largestIssued
  have hq : naivePreferred M genesis largestIssued = q := by
    apply hwalks.naiveWalk_eq
    omega
  rw [hok]
  simp [Except.map, preferred, hM, hq]

end Inv

theorem inv_of_run (H : History genesis F) (hops : ∀ op ∈ ops, ∀ l ∈ op.ledger?, F l)
    (hrun : (Trie.new genesis >>= run ops) = .ok (t, bs))
    : ∃ live, Inv genesis F t live (supported ops bs []) := by
  obtain ⟨t₀, live₀, hnew, hinv₀⟩ := Trie.new_eq H
  rw [hnew] at hrun
  exact hinv₀.of_run H hops hrun

theorem preferred_perm (hperm : M.Perm M') (largestIssued : Nat)
    : preferred M genesis largestIssued = preferred M' genesis largestIssued := by
  unfold preferred
  rw [hperm.isEmpty_eq, naivePreferred_perm hperm]

theorem naiveStep_naivePreferred (M : List Ledger) (genesis : Ledger) (largestIssued : Nat)
    : naiveStep M largestIssued (naivePreferred M genesis largestIssued) = none := by
  suffices hwalk : ∀ fuel p, highestSeq M ≤ fuel + p.seq →
      naiveStep M largestIssued (naiveWalk M largestIssued fuel p) = none by
    apply hwalk
    omega
  intro fuel
  induction fuel with
  | zero =>
    intro p hp
    unfold naiveWalk
    cases hstep : naiveStep M largestIssued p with
    | none => rfl
    | some q =>
      have := naiveStep_seq hstep
      omega
  | succ fuel ih =>
    intro p hp
    unfold naiveWalk
    split
    . next hstep => exact hstep
    . next q hstep =>
      apply ih
      have := naiveStep_seq hstep
      omega

theorem getPreferred_eq_naive (H : History genesis F) (ops : List Op)
    (hops : ∀ op ∈ ops, ∀ l ∈ op.ledger?, F l) (t : Trie) (bs : List Bool)
    (hrun : (Trie.new genesis >>= run ops) = .ok (t, bs)) (largestIssued : UInt32)
    : (t.getPreferred largestIssued.toNat).map Prod.snd =
          .ok (preferred (supported ops bs []) genesis largestIssued.toNat) ∧
        naiveStep (supported ops bs []) largestIssued.toNat
          (naivePreferred (supported ops bs []) genesis largestIssued.toNat) = none ∧
        ∀ (ops' : List Op) (t' : Trie) (bs' : List Bool),
          (∀ op ∈ ops', ∀ l ∈ op.ledger?, F l) →
          (Trie.new genesis >>= run ops') = .ok (t', bs') →
          (supported ops' bs' []).Perm (supported ops bs []) →
          (t'.getPreferred largestIssued.toNat).map Prod.snd =
            (t.getPreferred largestIssued.toNat).map Prod.snd := by
  obtain ⟨live, hinv⟩ := inv_of_run H hops hrun
  refine ⟨hinv.getPreferred_eq H _, naiveStep_naivePreferred _ _ _, ?_⟩
  intro ops' t' bs' hops' hrun' hperm
  obtain ⟨live', hinv'⟩ := inv_of_run H hops' hrun'
  rw [hinv.getPreferred_eq H, hinv'.getPreferred_eq H, preferred_perm hperm]

theorem getPreferred_eq_naive_sample
    : ∃ t, (Trie.new sampleGenesis >>= run [.insert sampleShort 2, .insert sampleFork 1]) =
          .ok (t, [true, true]) ∧
        (t.getPreferred 0).map Prod.snd =
          .ok (preferred [sampleShort, sampleShort, sampleFork] sampleGenesis 0) := by
  have H : History sampleGenesis (· ∈ [sampleGenesis, sampleShort, sampleFork]) :=
    history_of_forall (by simp) rfl (by decide) (by decide)
  refine ⟨_, rfl, ?_⟩
  exact (getPreferred_eq_naive H [.insert sampleShort 2, .insert sampleFork 1]
    (by simp [Op.ledger?]) _ [true, true] rfl 0).1

end LedgerTrie
