import GoXrpl.LedgerTrie.Lemmas.Preferred
import GoXrpl.LedgerTrie.Lemmas.Remove

/-!
This module contains the main result about the trie's contents: whatever operations are run on a new
trie, it answers like the multiset of ledgers they leave.
-/

open LedgerTrie.Trie

namespace LedgerTrie

inductive Op where
  | insert (l : Ledger) (count : UInt32)
  | remove (l : Ledger) (count : UInt32)
  | getPreferred (largestIssued : UInt32)

namespace Op

def ledger? : Op → Option Ledger
  | insert l _ => some l
  | remove l _ => some l
  | getPreferred _ => none

def exec : Op → Trie → Except String (Trie × Bool)
  | insert l count, t => do
    let t ← t.insert l count.toNat
    .ok (t, true)
  | remove l count, t => t.remove l count.toNat
  | getPreferred largestIssued, t => do
    let (t, _) ← t.getPreferred largestIssued.toNat
    .ok (t, true)

def spec : Op → List Ledger → List Ledger × Bool
  | insert l count, M => (addSupport M l count.toNat, true)
  | remove l count, M => (removeSupport M l count.toNat, 0 < tipSupportOf M l.tip)
  | getPreferred _, M => (M, true)

def Fits : Op → List Ledger → Prop
  | insert l count, M => l.seq < maxUint32 ∧ M.length + count.toNat ≤ maxUint32
  | _, _ => True

end Op

def run : List Op → Trie → Except String (Trie × List Bool)
  | [], t => .ok (t, [])
  | op :: ops, t => do
    let (t, b) ← op.exec t
    let (t, bs) ← run ops t
    .ok (t, b :: bs)

def runSpec : List Op → List Ledger → List Ledger × List Bool
  | [], M => (M, [])
  | op :: ops, M =>
    let (M, b) := op.spec M
    let (M, bs) := runSpec ops M
    (M, b :: bs)

def Fits : List Op → List Ledger → Prop
  | [], _ => True
  | op :: ops, M => op.Fits M ∧ Fits ops (op.spec M).1

def OneSequence (F : Ledger → Prop) : Prop :=
  ∀ a b, F a → F b → ∀ s p, s ≤ a.seq → p ≤ b.seq → a.ancestor s = b.ancestor p → s = p

theorem Trie.new_eq (H : History genesis F)
    : ∃ t live, new genesis = .ok t ∧ Inv genesis F t live [] := by
  unfold new
  rw [if_neg (by simp [H.genesis_seq])]
  refine ⟨_, {0}, rfl, ?_⟩
  constructor
  case shape =>
    constructor <;> simp [newEmptyNode]
    exact ⟨H.genesis_mem, by simp, by simp⟩
  case counts =>
    constructor <;> simp [newEmptyNode, tipSupportOf, branchSupportOf]
  case fresh => simp
  case forks => simp
  case index =>
    constructor <;> simp [seqSupportOf]
  case length_le => simp

namespace Inv

variable (H : History genesis F) (hinv : Inv genesis F t live M)
include H hinv

section OneSequence

variable (hone : OneSequence F)
include hone

theorem tip_eq_of_id (hl : F l) (ha : a ∈ live) (hid : (t.nodes a).s.tip.id = l.id)
    : (t.nodes a).s.tip = l.tip := by
  have hv := hinv.shape.valid a ha
  have := hv.start_lt
  have := hv.stop_le
  have hseq : (t.nodes a).s.stop - 1 = l.seq := by
    apply hone _ _ hv.mem hl _ _ (by omega) (Nat.le_refl _)
    rw [H.ancestor_seq l hl, ← hid]
    rfl
  simp only [Ledger.tip, ← hid, ← hseq]
  rfl

theorem tipSupport_eq (hl : F l) : t.tipSupport l = tipSupportOf M l.tip := by
  unfold tipSupport
  cases hfind : t.findByLedgerID l with
  | some a =>
    obtain ⟨ha, hid⟩ := hinv.findByLedgerID_sound hfind
    dsimp only
    rw [hinv.counts.tip a ha, hinv.tip_eq_of_id H hone hl ha hid]
  | none =>
    apply Eq.symm
    apply List.countP_eq_zero.mpr
    intro x hx heq
    obtain ⟨a, ha, htip⟩ := hinv.counts.held x hx
    rw [beq_iff_eq] at heq
    have := hinv.findByLedgerID_complete H ha (congrArg SpanTip.id (htip.trans heq))
    rw [hfind] at this
    contradiction

theorem branchSupport_eq (hl : F l) : t.branchSupport l = branchSupportOf M l.tip := by
  have h := hinv.shape
  have hc := hinv.counts
  unfold branchSupport
  cases hfind : t.findByLedgerID l with
  | some a =>
    obtain ⟨ha, hid⟩ := hinv.findByLedgerID_sound hfind
    dsimp only
    rw [hc.branch a ha, hinv.tip_eq_of_id H hone hl ha hid]
  | none =>
    dsimp only
    generalize hr : t.find l = r
    obtain ⟨hcand, hdiff, hstart, hchild⟩ := find_spec H h hl hr
    have hv := h.valid _ hcand
    have hle : r.2 ≤ (t.nodes r.1).s.stop := hdiff ▸ hv.diff_le_stop
    have hlt_iff : ∀ q, (t.nodes r.1).s.start ≤ q → q < (t.nodes r.1).s.stop →
        (q < r.2 ↔ l.descends ((t.nodes r.1).s.at q)) := by
      intro q h1 h2
      rw [hdiff]
      exact H.lt_diff_iff hv hl h1 h2
    have hseq : r.2 ≤ l.seq + 1 := hdiff ▸ H.diff_le_seq hv hl (hdiff ▸ hstart)
    split
    . next hcond =>
      -- The ledger lies inside the candidate's span.
      have hat : (t.nodes r.1).s.at l.seq = l.tip := by
        have hdesc := (hlt_iff l.seq (by omega) hcond.2).mp hcond.1
        rw [Span.descends_at_iff] at hdesc
        simp only [Span.at, Ledger.tip, ← hdesc.2, H.ancestor_seq l hl]
      rw [← hat, hc.branchSupportOf_at H h hcand (by omega) hcond.2, hc.branch _ hcand]
    . next hcond =>
      -- The ledger has left the trie before its own sequence, so nothing supports it.
      have hleft : r.2 ≤ l.seq := by omega
      apply Eq.symm
      apply List.countP_eq_zero.mpr
      intro x hx hdesc
      have hxF := hc.mem x hx
      rw [Ledger.descends_iff] at hdesc
      simp only [Ledger.tip] at hdesc
      have hagree : ∀ q ≤ l.seq, x.ancestor q = l.ancestor q := by
        intro q hq
        apply H.eq_of_le hxF hl hdesc.1 (Nat.le_refl _) _ hq
        rw [hdesc.2, H.ancestor_seq l hl]
      have hlast := (hlt_iff (r.2 - 1) (by omega) (by omega)).mp (by omega)
      cases Nat.lt_or_eq_of_le hle with
      | inl hlt =>
        have hxlast : x.descends ((t.nodes r.1).s.at (r.2 - 1)) := by
          rw [Span.descends_at_iff] at *
          rw [hagree _ (by omega)]
          exact ⟨by omega, hlast.2⟩
        have hxtip := hc.descends_tip_of_at H h hx hcand (by omega) (by omega) hxlast
        have hstop := hv.stop_le
        have hxat := H.descends_of_le hxF hv.mem (p := r.2) (by omega) (by omega) hxtip
        have hnot := mt (hlt_iff r.2 (by omega) hlt).mpr (Nat.lt_irrefl _)
        apply hnot
        rw [Span.descends_at_iff] at *
        exact ⟨hleft, by rw [← hxat.2, hagree _ hleft]⟩
      | inr heq =>
        rw [heq] at hlast hleft
        exact hc.not_descends_of_forall_child H h hcand hl hlast hleft (hchild heq) hx
          (by omega) (hagree _ hleft)

theorem exec_remove (hl : F l) (count : Nat)
    : ∃ t' live', t.remove l count = .ok (t', decide (0 < tipSupportOf M l.tip)) ∧
        Inv genesis F t' live' (removeSupport M l count) := by
  cases hinv.remove_cases H hl count with
  | inl habsent =>
    have htip := hinv.tipSupport_eq H hone hl
    have hzero : tipSupportOf M l.tip = 0 := by
      rw [← htip]
      unfold tipSupport
      cases hfind : t.findByLedgerID l with
      | none => rfl
      | some a => exact habsent.1 a hfind
    refine ⟨t, live, ?_, ?_⟩
    . simp [habsent.2, hzero]
    . rwa [removeSupport_of_tipSupportOf_eq_zero hzero]
  | inr hpresent =>
    cases hpresent with
    | inl hmismatch =>
      obtain ⟨a, ha, hid, hseq, _⟩ := hmismatch
      have := congrArg SpanTip.seq (hinv.tip_eq_of_id H hone hl ha hid)
      exact absurd this hseq
    | inr hremove =>
      obtain ⟨a, ha, htip, hpos, t', live', hok, hinv'⟩ := hremove
      refine ⟨t', live', ?_, hinv'⟩
      have : 0 < tipSupportOf M l.tip := by
        rw [← htip, ← hinv.counts.tip a ha]
        omega
      simp [hok, this]

theorem exec (op : Op) (hop : ∀ l ∈ op.ledger?, F l) (hfits : op.Fits M)
    : ∃ t' live', op.exec t = .ok (t', (op.spec M).2) ∧ Inv genesis F t' live' (op.spec M).1 := by
  cases op with
  | insert l count =>
    obtain ⟨t', live', hok, hinv'⟩ := hinv.insert H (hop l rfl) (Nat.ne_of_lt hfits.1) hfits.2
    refine ⟨t', live', ?_, hinv'⟩
    simp [Op.exec, Op.spec, hok, bind, Except.bind]
  | remove l count => exact hinv.exec_remove H hone (hop l rfl) count.toNat
  | getPreferred largestIssued =>
    by_cases hM : M = []
    . subst hM
      refine ⟨t, live, ?_, hinv⟩
      simp [Op.exec, Op.spec, hinv.getPreferred_nil H, bind, Except.bind]
    obtain ⟨t', q, hok, hinv', _⟩ := hinv.getPreferred_of_ne_nil H hM largestIssued.toNat
    refine ⟨t', live, ?_, hinv'⟩
    simp [Op.exec, Op.spec, hok, bind, Except.bind]

theorem run (ops : List Op) (hops : ∀ op ∈ ops, ∀ l ∈ op.ledger?, F l) (hfits : Fits ops M)
    : ∃ t' live', run ops t = .ok (t', (runSpec ops M).2) ∧
        Inv genesis F t' live' (runSpec ops M).1 := by
  induction ops generalizing t live M with
  | nil => exact ⟨t, live, rfl, hinv⟩
  | cons op ops ih =>
    obtain ⟨t₁, live₁, hexec, hinv₁⟩ := hinv.exec H hone op (hops op List.mem_cons_self) hfits.1
    obtain ⟨t₂, live₂, hrun, hinv₂⟩ := ih hinv₁ (fun op hop => hops op (List.mem_cons_of_mem _ hop))
      hfits.2
    refine ⟨t₂, live₂, ?_, hinv₂⟩
    simp [LedgerTrie.run, runSpec, hexec, hrun, bind, Except.bind]

end OneSequence

end Inv

def Ledger.ofIDs (ids : List LedgerID) : Ledger :=
  {
    id := ids.getLastD Hash256.zero
    seq := ids.length - 1
    minSeq := 0
    ancestor := fun s => ids.getD s Hash256.zero
  }

def sampleID (n : UInt8) : LedgerID := Vector.replicate 32 n

def sampleGenesis : Ledger := .ofIDs [sampleID 1]

def sampleShort : Ledger := .ofIDs [sampleID 1, sampleID 2]

def sampleLong : Ledger := .ofIDs [sampleID 1, sampleID 3, sampleID 2]

def sampleFork : Ledger := .ofIDs [sampleID 1, sampleID 4]

theorem history_of_forall {ledgers : List Ledger} (hmem : genesis ∈ ledgers)
    (hgenesis : genesis.seq = 0)
    (hroot : ∀ a ∈ ledgers, a.seq < 3 ∧ a.minSeq = 0 ∧ a.ancestor a.seq = a.id ∧
      a.ancestor 0 = genesis.id)
    (hunique : ∀ a ∈ ledgers, ∀ b ∈ ledgers, ∀ s < 3, s ≤ a.seq → s ≤ b.seq →
      a.ancestor s = b.ancestor s → ∀ p < s, a.ancestor p = b.ancestor p)
    : History genesis (· ∈ ledgers) := by
  refine ⟨hmem, hgenesis, ?_, ?_, ?_, ?_⟩
  . intro a ha
    exact (hroot a ha).2.1
  . intro a ha
    exact (hroot a ha).2.2.1
  . intro a ha
    exact (hroot a ha).2.2.2
  intro a b ha hb s hsa
  have := (hroot a ha).1
  exact hunique a ha b hb s (by omega) hsa

theorem oneSequence_of_forall {ledgers : List Ledger} (hseq : ∀ a ∈ ledgers, a.seq < 3)
    (hone : ∀ a ∈ ledgers, ∀ b ∈ ledgers, ∀ s < 3, s ≤ a.seq → ∀ p < 3, p ≤ b.seq →
      a.ancestor s = b.ancestor p → s = p)
    : OneSequence (· ∈ ledgers) := by
  intro a b ha hb s p hs hp
  have := hseq a ha
  have := hseq b hb
  exact hone a ha b hb s (by omega) hs p (by omega) hp

theorem remove_panics_of_shared_id
    : History sampleGenesis (· ∈ [sampleGenesis, sampleShort, sampleLong]) ∧
        (∀ op ∈ [Op.insert sampleLong 1, .remove sampleShort 1], ∀ l ∈ op.ledger?,
          l ∈ [sampleGenesis, sampleShort, sampleLong]) ∧
        Fits [.insert sampleLong 1, .remove sampleShort 1] [] ∧
        (new sampleGenesis >>= run [.insert sampleLong 1, .remove sampleShort 1]) =
          .error "ledgertrie: ledger sequence mismatch" := by
  refine ⟨?_, ?_, ?_, rfl⟩
  . apply history_of_forall
    . simp
    . rfl
    . decide
    . decide
  . simp [Op.ledger?]
  . simp [Fits, Op.Fits, maxUint32, sampleLong, Ledger.ofIDs]

theorem run_refines_multiset (H : History genesis F) (hone : OneSequence F) (ops : List Op)
    (hops : ∀ op ∈ ops, ∀ l ∈ op.ledger?, F l) (hfits : Fits ops [])
    : ∃ t, (new genesis >>= run ops) = .ok (t, (runSpec ops []).2) ∧
        t.checkInvariants ∧
        ∀ l, F l →
          t.tipSupport l = tipSupportOf (runSpec ops []).1 l.tip ∧
            t.branchSupport l = branchSupportOf (runSpec ops []).1 l.tip := by
  obtain ⟨t₀, live₀, hnew, hinv₀⟩ := new_eq H
  obtain ⟨t, live, hrun, hinv⟩ := hinv₀.run H hone ops hops hfits
  refine ⟨t, ?_, hinv.checkInvariants H, ?_⟩
  . simp [hnew, hrun, bind, Except.bind]
  intro l hl
  exact ⟨hinv.tipSupport_eq H hone hl, hinv.branchSupport_eq H hone hl⟩

theorem run_refines_multiset_sample
    : ∃ t, (new sampleGenesis >>=
            run [.insert sampleShort 2, .insert sampleFork 1, .remove sampleShort 1]) =
          .ok (t, [true, true, true]) ∧
        t.checkInvariants ∧ t.tipSupport sampleShort = 1 ∧ t.branchSupport sampleGenesis = 2 := by
  have hfits : Fits [.insert sampleShort 2, .insert sampleFork 1, .remove sampleShort 1] [] := by
    simp [Fits, Op.Fits, Op.spec, addSupport, maxUint32, sampleShort, sampleFork, Ledger.ofIDs]
  have H : History sampleGenesis (· ∈ [sampleGenesis, sampleShort, sampleFork]) :=
    history_of_forall (by simp) rfl (by decide) (by decide)
  obtain ⟨t, hrun, hcheck, hsupport⟩ := run_refines_multiset H
    (oneSequence_of_forall (by decide) (by decide))
    [.insert sampleShort 2, .insert sampleFork 1, .remove sampleShort 1]
    (by simp [Op.ledger?]) hfits
  refine ⟨t, hrun, hcheck, ?_, ?_⟩
  . exact (hsupport sampleShort (by simp)).1
  . exact (hsupport sampleGenesis (by simp)).2

end LedgerTrie
