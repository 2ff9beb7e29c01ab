import GoXrpl.Radix.Basic

/-!
This module contains insertion into and removal from radix trees.
-/

open Function List

namespace Radix

variable {κ α : Type}

def Separates (digit : κ → Nat → Fin n) (D : Nat) : Prop :=
  ∀ a b, (∀ e < D, digit a e = digit b e) → a = b

def firstDiff (digit : κ → Nat → Fin n) (D : Nat) (k k' : κ) (d : Nat) : Nat :=
  ((range' d (D - d)).find? fun e => digit k e ≠ digit k' e).getD (D - 1)

theorem firstDiff_spec
    (hsep : Separates digit D) (hne : k ≠ k') (hd : ∀ e < d, digit k e = digit k' e)
    : d ≤ firstDiff digit D k k' d
        ∧ firstDiff digit D k k' d < D
        ∧ digit k (firstDiff digit D k k' d) ≠ digit k' (firstDiff digit D k k' d)
        ∧ ∀ e < firstDiff digit D k k' d, digit k e = digit k' e := by
  unfold firstDiff
  cases hfind : (range' d (D - d)).find? fun e => digit k e ≠ digit k' e with
  | none =>
    -- the keys would agree everywhere
    exfalso
    apply hne
    apply hsep
    intro e he
    by_cases hde : e < d
    . exact hd e hde
    rw [find?_eq_none] at hfind
    have := hfind e (by rw [mem_range'_1]; omega)
    simpa using this
  | some m =>
    rw [find?_range'_eq_some] at hfind
    obtain ⟨hm, hmem, hlt⟩ := hfind
    rw [mem_range'_1] at hmem
    simp only [ne_eq, decide_not, Bool.not_eq_eq_eq_not, Bool.not_true, decide_eq_false_iff_not] at hm
    simp only [Option.getD_some]
    refine ⟨by omega, by omega, hm, ?_⟩
    intro e he
    by_cases hde : e < d
    . exact hd e hde
    have := hlt e (by omega) he
    simpa using this

namespace Tree

variable {digit : κ → Nat → Fin n}

variable {c : Fin n → Tree n κ α} {k k' : κ}

theorem mem_items_update
    : x ∈ (inner (update c i t)).items
        ↔ x ∈ t.items ∨ ∃ j, j ≠ i ∧ x ∈ (c j).items := by
  rw [mem_items_inner]
  constructor
  . rintro ⟨j, hj⟩
    by_cases hji : j = i
    . subst hji
      rw [update_self] at hj
      exact .inl hj
    rw [update_of_ne hji] at hj
    exact .inr ⟨j, hji, hj⟩
  rintro (ht | ⟨j, hji, hj⟩)
  . exact ⟨i, by rwa [update_self]⟩
  . exact ⟨j, by rwa [update_of_ne hji]⟩

theorem Placed.update
    (hc : ∀ j, j ≠ i → (∀ x ∈ (c j).items, digit x.1 d = j) ∧ Placed digit (d + 1) (c j))
    (hdig : ∀ x ∈ t.items, digit x.1 d = i) (ht : Placed digit (d + 1) t)
    : Placed digit d (inner (update c i t)) := by
  intro j
  by_cases hji : j = i
  . subst hji
    rw [update_self]
    exact ⟨hdig, ht⟩
  rw [update_of_ne hji]
  exact hc j hji

theorem compact_update (hc : ∀ j, j ≠ i → (c j).Compact) (ht : t.Compact) (j : Fin n)
    : (update c i t j).Compact := by
  by_cases hji : j = i
  . subst hji
    rwa [update_self]
  rw [update_of_ne hji]
  exact hc j hji

theorem Placed.two_le_iff (h : Placed digit d t)
    : 2 ≤ t.items.length ↔ ∃ x ∈ t.items, ∃ y ∈ t.items, x.1 ≠ y.1 := by
  have hnodup := h.nodup_keys
  generalize t.items = l at hnodup
  constructor
  . intro hlen
    match l, hlen with
    | x :: y :: l, _ =>
      refine ⟨x, by simp, y, by simp, ?_⟩
      simp only [map_cons, nodup_cons, mem_cons, not_or] at hnodup
      exact hnodup.1.1
  rintro ⟨x, hx, y, hy, hxy⟩
  match l with
  | [] => simp at hx
  | [z] =>
    simp only [mem_singleton] at hx hy
    subst hx hy
    exact absurd rfl hxy
  | _ :: _ :: _ => simp

theorem Compact.depth_lt (hsep : Separates digit D)
    (hc : (inner c).Compact) (hp : Placed digit d (inner c)) (hb : Below digit k d (inner c))
    : d < D := by
  by_contra hd
  obtain ⟨x, hx, y, hy, hxy⟩ := hp.two_le_iff.mp hc.two_le
  apply hxy
  apply hsep
  intro e he
  rw [hb x hx e (by omega), hb y hy e (by omega)]

def forkChildren (digit : κ → Nat → Fin n) (k : κ) (a : α) (k' : κ) (a' : α)
    : Nat → Nat → Fin n → Tree n κ α
  | 0, d =>
    Function.update (Function.update noChildren (digit k d) (leaf k a)) (digit k' d) (leaf k' a')
  | m + 1, d => Function.update noChildren (digit k d) (inner (forkChildren digit k a k' a' m (d + 1)))

def fork (digit : κ → Nat → Fin n) (k : κ) (a : α) (k' : κ) (a' : α) (m d : Nat) : Tree n κ α :=
  inner (forkChildren digit k a k' a' m d)

theorem fork_zero
    : fork digit k a k' a' 0 d
        = inner (update (update noChildren (digit k d) (leaf k a)) (digit k' d)
            (leaf k' a')) := rfl

theorem fork_succ
    : fork digit k a k' a' (m + 1) d
        = inner (update noChildren (digit k d) (fork digit k a k' a' m (d + 1))) := rfl

section

variable (hdiff : digit k (d + m) ≠ digit k' (d + m))

include hdiff

theorem mem_items_fork : x ∈ (fork digit k a k' a' m d).items ↔ x = (k, a) ∨ x = (k', a') := by
  induction m generalizing d with
  | zero =>
    rw [fork_zero, mem_items_update]
    simp only [items_leaf, mem_singleton]
    constructor
    . rintro (h | ⟨j, hj, hx⟩)
      . exact .inr h
      by_cases hjk : j = digit k d
      . subst hjk
        rw [update_self] at hx
        exact .inl (by simpa using hx)
      rw [update_of_ne hjk] at hx
      simp at hx
    rintro (h | h)
    . refine .inr ⟨digit k d, hdiff, ?_⟩
      simp [h]
    . exact .inl h
  | succ m ih =>
    rw [fork_succ, mem_items_update, ih (by rwa [Nat.add_right_comm, Nat.add_assoc])]
    simp

theorem placed_fork (hsame : ∀ e < m, digit k (d + e) = digit k' (d + e))
    : Placed digit d (fork digit k a k' a' m d) := by
  induction m generalizing d with
  | zero =>
    rw [fork_zero]
    apply Placed.update
    . intro j hj
      by_cases hjk : j = digit k d
      . subst hjk
        rw [update_self]
        exact ⟨by simp, trivial⟩
      rw [update_of_ne hjk]
      exact ⟨by simp, trivial⟩
    . simp
    . trivial
  | succ m ih =>
    rw [fork_succ]
    have hdiff' : digit k (d + 1 + m) ≠ digit k' (d + 1 + m) := by
      rwa [Nat.add_right_comm, Nat.add_assoc]
    apply Placed.update
    . intro j _
      exact ⟨by simp, trivial⟩
    . intro x hx
      rw [mem_items_fork hdiff'] at hx
      rcases hx with rfl | rfl
      . rfl
      . exact (hsame 0 (by omega)).symm
    apply ih hdiff'
    intro e he
    have := hsame (e + 1) (by omega)
    rwa [Nat.add_comm e 1, ← Nat.add_assoc] at this

theorem two_le_length_fork (hsame : ∀ e < m, digit k (d + e) = digit k' (d + e))
    : 2 ≤ (fork digit k a k' a' m d).items.length := by
  rw [(placed_fork hdiff hsame).two_le_iff]
  refine ⟨(k, a), ?_, (k', a'), ?_, ?_⟩
  . exact (mem_items_fork hdiff).mpr (.inl rfl)
  . exact (mem_items_fork hdiff).mpr (.inr rfl)
  intro h
  apply hdiff
  rw [show k = k' from h]

theorem compact_fork (hsame : ∀ e < m, digit k (d + e) = digit k' (d + e))
    : (fork digit k a k' a' m d).Compact := by
  have htwo : 2 ≤ (fork digit k a k' a' m d).items.length := two_le_length_fork hdiff hsame
  induction m generalizing d with
  | zero =>
    refine ⟨htwo, ?_⟩
    intro i
    apply compact_update
    . intro j _
      apply compact_update
      . intro _ _
        trivial
      . trivial
    . trivial
  | succ m ih =>
    have hdiff' : digit k (d + 1 + m) ≠ digit k' (d + 1 + m) := by
      rwa [Nat.add_right_comm, Nat.add_assoc]
    have hsame' : ∀ e < m, digit k (d + 1 + e) = digit k' (d + 1 + e) := by
      intro e he
      have := hsame (e + 1) (by omega)
      rwa [Nat.add_comm e 1, ← Nat.add_assoc] at this
    refine ⟨htwo, ?_⟩
    intro i
    apply compact_update
    . intro _ _
      trivial
    . exact ih hdiff' hsame' (two_le_length_fork hdiff' hsame')

end

theorem firstDiff_fork (hsep : Separates digit D) (hne : k ≠ k') (hb : Below digit k d (leaf k' a'))
    : digit k (d + (firstDiff digit D k k' d - d)) ≠ digit k' (d + (firstDiff digit D k k' d - d))
        ∧ ∀ e < firstDiff digit D k k' d - d, digit k (d + e) = digit k' (d + e) := by
  have hagree : ∀ e < d, digit k e = digit k' e := by
    intro e he
    exact (hb (k', a') (by simp) e he).symm
  obtain ⟨hle, _, hdiff, hsame⟩ := firstDiff_spec hsep hne hagree
  constructor
  . rwa [Nat.add_sub_cancel' hle]
  intro e he
  exact hsame _ (by omega)

theorem Placed.mem_ne_iff (hp : Placed digit d (inner c))
    : x ∈ (inner c).items ∧ x.1 ≠ k
        ↔ (x ∈ (c (digit k d)).items ∧ x.1 ≠ k) ∨ ∃ j, j ≠ digit k d ∧ x ∈ (c j).items := by
  rw [mem_items_inner]
  constructor
  . rintro ⟨⟨j, hj⟩, hne⟩
    by_cases hjk : j = digit k d
    . subst hjk
      exact .inl ⟨hj, hne⟩
    . exact .inr ⟨j, hjk, hj⟩
  rintro (⟨hx, hne⟩ | ⟨j, hj, hx⟩)
  . exact ⟨⟨_, hx⟩, hne⟩
  refine ⟨⟨j, hx⟩, ?_⟩
  -- an item below another branch has another digit than `k`
  intro hxk
  apply hj
  rw [← hp.digit_eq hx, hxk]

section Insert

variable [DecidableEq κ]

def insert (digit : κ → Nat → Fin n) (D : Nat) (k : κ) (a : α) : Nat → Tree n κ α → Tree n κ α
  | _, nil => leaf k a
  | d, leaf k' a' =>
    if k = k' then
      leaf k a
    else
      fork digit k a k' a' (firstDiff digit D k k' d - d) d
  | d, inner c =>
    inner (Function.update c (digit k d) (insert digit D k a (d + 1) (c (digit k d))))

variable {t : Tree n κ α}

section

variable (hsep : Separates digit D) (hp : Placed digit d t) (hb : Below digit k d t)

include hsep hp hb

theorem mem_items_insert
    : x ∈ (insert digit D k a d t).items ↔ x = (k, a) ∨ (x ∈ t.items ∧ x.1 ≠ k) := by
  induction t generalizing d with
  | nil => simp [insert]
  | leaf k' a' =>
    simp only [insert]
    split
    . next hk =>
      subst hk
      simp only [items_leaf, mem_singleton]
      constructor
      . exact .inl
      rintro (h | ⟨h, hne⟩)
      . exact h
      rw [h] at hne
      exact absurd rfl hne
    . next hk =>
      obtain ⟨hdiff, _⟩ := firstDiff_fork hsep hk hb
      rw [mem_items_fork hdiff, items_leaf, mem_singleton]
      constructor
      . rintro (h | h)
        . exact .inl h
        refine .inr ⟨h, ?_⟩
        rw [h]
        exact fun heq => hk heq.symm
      rintro (h | ⟨h, _⟩)
      . exact .inl h
      . exact .inr h
  | inner c ih =>
    simp only [insert]
    rw [mem_items_update, ih _ (hp.child _) (hb.child hp), hp.mem_ne_iff, or_assoc]

theorem placed_insert : Placed digit d (insert digit D k a d t) := by
  induction t generalizing d with
  | nil => trivial
  | leaf k' a' =>
    simp only [insert]
    split
    . trivial
    . next hk =>
      obtain ⟨hdiff, hsame⟩ := firstDiff_fork hsep hk hb
      exact placed_fork hdiff hsame
  | inner c ih =>
    apply Placed.update
    . intro j _
      exact hp j
    . intro x hx
      rw [mem_items_insert hsep (hp.child _) (hb.child hp)] at hx
      rcases hx with rfl | ⟨hx, _⟩
      . rfl
      . exact hp.digit_eq hx
    . exact ih _ (hp.child _) (hb.child hp)

theorem compact_insert (hc : t.Compact) : (insert digit D k a d t).Compact := by
  induction t generalizing d with
  | nil => trivial
  | leaf k' a' =>
    simp only [insert]
    split
    . trivial
    . next hk =>
      obtain ⟨hdiff, hsame⟩ := firstDiff_fork hsep hk hb
      exact compact_fork hdiff hsame
  | inner c ih =>
    have hpi : Placed digit d (insert digit D k a d (inner c)) := placed_insert hsep hp hb
    refine ⟨?_, ?_⟩
    . obtain ⟨x, hx, y, hy, hxy⟩ := hp.two_le_iff.mp hc.two_le
      refine hpi.two_le_iff.mpr ?_
      simp only [mem_items_insert hsep hp hb]
      -- one of the two keys may be the inserted one, whose item is replaced
      by_cases hxk : x.1 = k
      . exact ⟨(k, a), .inl rfl, y, .inr ⟨hy, fun hyk => hxy (hxk.trans hyk.symm)⟩,
          fun hky => hxy (hxk.trans hky)⟩
      by_cases hyk : y.1 = k
      . exact ⟨(k, a), .inl rfl, x, .inr ⟨hx, hxk⟩, fun hkx => hxk hkx.symm⟩
      . exact ⟨x, .inr ⟨hx, hxk⟩, y, .inr ⟨hy, hyk⟩, hxy⟩
    intro i
    apply compact_update
    . intro j _
      exact hc.child j
    . exact ih _ (hp.child _) (hb.child hp) (hc.child _)

end

theorem Canonical.insert (hsep : Separates digit D) (h : Canonical digit t)
    : Canonical digit (insert digit D k a 0 t) := by
  cases t with
  | nil => exact h.elim
  | leaf => exact h.elim
  | inner c =>
    have hb : Below digit k 0 (inner c) := below_zero k _
    refine ⟨placed_insert hsep h.1 hb, ?_⟩
    intro i
    apply compact_update
    . intro j _
      exact h.2 j
    . exact compact_insert hsep (h.1.child _) (hb.child h.1) (h.2 _)

end Insert

end Tree

end Radix
