import GoXrpl.LedgerTrie.Impl.Trie
import Mathlib.Logic.Function.Iterate

namespace LedgerTrie

structure History (genesis : Ledger) (F : Ledger → Prop) : Prop where
  genesis_mem : F genesis
  genesis_seq : genesis.seq = 0
  minSeq_eq : ∀ a, F a → a.minSeq = 0
  ancestor_seq : ∀ a, F a → a.ancestor a.seq = a.id
  ancestor_zero : ∀ a, F a → a.ancestor 0 = genesis.id
  unique : ∀ a b, F a → F b → ∀ s, s ≤ a.seq → s ≤ b.seq → a.ancestor s = b.ancestor s →
    ∀ p, p < s → a.ancestor p = b.ancestor p

def Ledger.descends (x : Ledger) (p : SpanTip) : Bool :=
  p.seq ≤ x.seq && x.ancestor p.seq == p.id

def Ledger.tip (x : Ledger) : SpanTip := { seq := x.seq, id := x.id }

def Span.at (s : Span) (q : Nat) : SpanTip := { seq := q, id := s.ledger.ancestor q }

@[simp]
theorem Span.at_seq (s : Span) (q : Nat) : (s.at q).seq = q := rfl

theorem Span.tip_eq_at (s : Span) : s.tip = s.at (s.stop - 1) := rfl

structure Span.Valid (F : Ledger → Prop) (s : Span) : Prop where
  mem : F s.ledger
  start_lt : s.start < s.stop
  stop_le : s.stop ≤ s.ledger.seq + 1

variable {x : Ledger}

theorem Ledger.descends_iff : x.descends p ↔ p.seq ≤ x.seq ∧ x.ancestor p.seq = p.id := by
  simp [Ledger.descends]

theorem Span.descends_at_iff {s : Span}
    : x.descends (s.at q) ↔ q ≤ x.seq ∧ x.ancestor q = s.ledger.ancestor q := by
  apply Ledger.descends_iff

section History

variable (H : History genesis F)
include H

theorem History.eq_of_le (ha : F a) (hb : F b) (hsa : s ≤ a.seq)
    (hsb : s ≤ b.seq) (heq : a.ancestor s = b.ancestor s) (hp : p ≤ s)
    : a.ancestor p = b.ancestor p := by
  cases Nat.lt_or_eq_of_le hp with
  | inl h => exact H.unique a b ha hb s hsa hsb heq p h
  | inr h => rw [h, heq]

theorem History.descends_tip (hx : F x) : x.descends x.tip := by
  rw [Ledger.descends_iff]
  exact ⟨Nat.le_refl _, H.ancestor_seq x hx⟩

theorem History.descends_of_le {s : Span} (hx : F x) (hs : F s.ledger)
    (hpq : p ≤ q) (hq : q ≤ s.ledger.seq) (h : x.descends (s.at q))
    : x.descends (s.at p) := by
  rw [Span.descends_at_iff] at *
  refine ⟨by omega, ?_⟩
  exact H.eq_of_le hx hs h.1 hq h.2 hpq

theorem History.mismatch_spec (ha : F a) (hb : F b) (hq : q ≤ a.seq)
    : q < mismatch a b ↔ q ≤ b.seq ∧ b.ancestor q = a.ancestor q := by
  have hthreshold := Search.bisect_threshold (fun mid => a.ancestor mid == b.ancestor mid)
    (min b.seq a.seq + 1 - 0) 0 (min b.seq a.seq + 1) (by omega) (by omega) (by
      intro i j _ hij hj heq
      simp only [beq_iff_eq] at *
      exact H.eq_of_le ha hb (by omega) (by omega) heq hij)
  unfold mismatch
  simp only [H.minSeq_eq a ha, H.minSeq_eq b hb]
  generalize hlow : Search.bisect _ _ _ _ = low at *
  have hpos : low ≠ 0 := by
    intro hzero
    apply hthreshold.fails 0 (by omega) (by omega)
    simp [H.ancestor_zero a ha, H.ancestor_zero b hb]
  simp only [Nat.lt_irrefl, gt_iff_lt, Nat.not_lt_zero, ↓reduceIte, hlow, hpos]
  have := hthreshold.le_hi
  constructor
  . intro hlt
    have := hthreshold.holds q (by omega) hlt
    simp only [beq_iff_eq] at this
    exact ⟨by omega, this.symm⟩
  intro h
  cases Nat.lt_or_ge q low with
  | inl hlt => exact hlt
  | inr hge =>
    have := hthreshold.fails q hge (by omega)
    simp [h.2] at this

variable {s : Span} (hs : s.Valid F) (hl : F l)
include hs hl

theorem History.lt_diff_iff (hstart : s.start ≤ q) (hstop : q < s.stop)
    : q < s.diff l ↔ l.descends (s.at q) := by
  have hq : q ≤ s.ledger.seq := by
    have := hs.stop_le
    omega
  rw [Span.descends_at_iff, ← H.mismatch_spec hs.mem hl hq]
  unfold Span.diff Span.clamp
  split
  . omega
  . split <;> omega

omit H hl in
theorem Span.Valid.diff_le_stop : s.diff l ≤ s.stop := by
  have := hs.start_lt
  unfold Span.diff Span.clamp
  split
  . omega
  . split <;> omega

theorem History.diff_le_seq (h : s.start < s.diff l) : s.diff l ≤ l.seq + 1 := by
  have hle := hs.diff_le_stop (l := l)
  have := H.lt_diff_iff hs hl (q := s.diff l - 1) (by omega) (by omega)
  rw [Span.descends_at_iff] at this
  omega

end History

namespace Span

variable {s : Span}

theorem before_eq (h1 : s.start < d) (h2 : d ≤ s.stop)
    : s.before d = some { start := s.start, stop := d, ledger := s.ledger } := by
  unfold before sub clamp
  grind

theorem fromSeq_eq (h1 : s.start ≤ d) (h2 : d < s.stop)
    : s.fromSeq d = some { start := d, stop := s.stop, ledger := s.ledger } := by
  unfold fromSeq sub clamp
  grind

theorem fromSeq_stop : s.fromSeq s.stop = none := by
  unfold fromSeq sub clamp
  grind

end Span

def tipSupportOf (M : List Ledger) (p : SpanTip) : Nat := M.countP (fun x => x.tip == p)

def branchSupportOf (M : List Ledger) (p : SpanTip) : Nat := M.countP (fun x => x.descends p)

def seqSupportOf (M : List Ledger) (seq : Nat) : Nat := M.countP (fun x => x.seq == seq)

def addSupport (M : List Ledger) (l : Ledger) (count : Nat) : List Ledger :=
  M ++ List.replicate count l

-- Nothing happens once no copy of the ledger is left.
def removeSupport (M : List Ledger) (l : Ledger) (count : Nat) : List Ledger :=
  (List.eraseP (fun x => x.tip == l.tip))^[count] M

theorem countP_addSupport (M : List Ledger) (l : Ledger) (count : Nat) (q : Ledger → Bool)
    : (addSupport M l count).countP q = M.countP q + if q l then count else 0 := by
  simp [addSupport, List.countP_append, List.countP_replicate]

theorem mem_addSupport (h : x ∈ addSupport M l count) : x ∈ M ∨ x = l := by
  simp only [addSupport, List.mem_append, List.mem_replicate] at h
  cases h with
  | inl h => exact .inl h
  | inr h => exact .inr h.2

theorem length_addSupport (M : List Ledger) (l : Ledger) (count : Nat)
    : (addSupport M l count).length = M.length + count := by
  simp [addSupport]

theorem removeSupport_sublist (M : List Ledger) (l : Ledger) (count : Nat)
    : (removeSupport M l count).Sublist M := by
  unfold removeSupport
  induction count generalizing M with
  | zero => simp
  | succ count ih =>
    rw [Function.iterate_succ_apply]
    apply List.Sublist.trans
    . apply ih
    . apply List.eraseP_sublist

private theorem countP_eraseP_of_const (M : List Ledger) (p q : Ledger → Bool) (b : Bool)
    (hq : ∀ x ∈ M, p x → q x = b)
    : (M.eraseP p).countP q = M.countP q - if b then min 1 (M.countP p) else 0 := by
  induction M with
  | nil => simp
  | cons x M ih =>
    have ih := ih (fun y hy => hq y (List.mem_cons_of_mem _ hy))
    have hx := hq x List.mem_cons_self
    by_cases hp : p x
    . rw [List.eraseP_cons_of_pos hp, List.countP_cons, List.countP_cons, hx hp]
      cases b <;> simp [hp]
    rw [List.eraseP_cons_of_neg hp, List.countP_cons, List.countP_cons, List.countP_cons, ih]
    simp only [hp, Bool.false_eq_true, ↓reduceIte, Nat.add_zero]
    cases b with
    | false => simp
    | true =>
      have : M.countP p ≤ M.countP q := by
        apply List.countP_mono_left
        intro y hy hpy
        exact hq y (List.mem_cons_of_mem _ hy) hpy
      simp only [↓reduceIte]
      omega

theorem countP_removeSupport (M : List Ledger) (l : Ledger) (count : Nat) (q : Ledger → Bool)
    (b : Bool) (hq : ∀ x ∈ M, x.tip = l.tip → q x = b)
    : (removeSupport M l count).countP q =
        M.countP q - if b then min count (tipSupportOf M l.tip) else 0 := by
  unfold removeSupport
  induction count generalizing M with
  | zero => simp
  | succ count ih =>
    have herase := countP_eraseP_of_const M (fun x => x.tip == l.tip) q b
      (fun x hx hp => hq x hx (by simpa using hp))
    have htips := countP_eraseP_of_const M (fun x => x.tip == l.tip) (fun x => x.tip == l.tip)
      true (fun x _ hp => hp)
    rw [Function.iterate_succ_apply, ih, herase]
    . unfold tipSupportOf
      rw [htips]
      cases b with
      | false => simp
      | true =>
        simp only [↓reduceIte]
        omega
    intro x hx
    exact hq x (List.mem_of_mem_eraseP hx)

theorem removeSupport_of_tipSupportOf_eq_zero (hzero : tipSupportOf M l.tip = 0) (count : Nat)
    : removeSupport M l count = M := by
  rw [tipSupportOf, List.countP_eq_zero] at hzero
  unfold removeSupport
  induction count with
  | zero => rfl
  | succ count ih =>
    rw [Function.iterate_succ_apply, List.eraseP_of_forall_not hzero, ih]

theorem removeSupport_min (M : List Ledger) (l : Ledger) (count : Nat)
    : removeSupport M l (min count (tipSupportOf M l.tip)) = removeSupport M l count := by
  induction count generalizing M with
  | zero => simp
  | succ count ih =>
    by_cases hzero : tipSupportOf M l.tip = 0
    . rw [removeSupport_of_tipSupportOf_eq_zero hzero, removeSupport_of_tipSupportOf_eq_zero hzero]
    have hone := countP_eraseP_of_const M (fun x => x.tip == l.tip) (fun x => x.tip == l.tip)
      true (fun x _ hp => hp)
    have htips : tipSupportOf (M.eraseP (fun x => x.tip == l.tip)) l.tip =
        tipSupportOf M l.tip - 1 := by
      unfold tipSupportOf at *
      rw [hone]
      simp only [↓reduceIte]
      omega
    have hmin : min (count + 1) (tipSupportOf M l.tip) =
        min count (tipSupportOf M l.tip - 1) + 1 := by
      omega
    have ih := ih (M.eraseP (fun x => x.tip == l.tip))
    rw [htips] at ih
    unfold removeSupport at *
    rw [hmin, Function.iterate_succ_apply, Function.iterate_succ_apply, ih]

end LedgerTrie
