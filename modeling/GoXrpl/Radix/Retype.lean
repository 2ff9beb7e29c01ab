import GoXrpl.Radix.Update

/-!
This module contains a removal that rebuilds the leaf of a lone item: the value of the item goes
through a function when the nodes above it collapse.
-/

open List

namespace Radix

namespace Tree

variable {κ α : Type}

def collapseWith (g : α → α) (t : Tree n κ α) : Tree n κ α :=
  match t.items with
  | [] => nil
  | [x] => leaf x.1 (g x.2)
  | _ => t

variable {t : Tree n κ α}

theorem collapseWith_of_two_le (h : 2 ≤ t.items.length) : t.collapseWith g = t := by
  unfold collapseWith
  split
  . next heq => simp [heq] at h
  . next heq => simp [heq] at h
  . rfl

theorem two_le_length (hnil : l ≠ []) (hone : ∀ x, l ≠ [x]) : 2 ≤ l.length := by
  match l with
  | [] => exact absurd rfl hnil
  | [x] => exact absurd rfl (hone x)
  | _ :: _ :: _ => simp

theorem Placed.collapseWith (h : Placed digit d t) : Placed digit d (t.collapseWith g) := by
  unfold Tree.collapseWith
  split
  . trivial
  . trivial
  . exact h

theorem compact_collapseWith {c : Fin n → Tree n κ α} (h : ∀ i, (c i).Compact)
    : ((inner c).collapseWith g).Compact := by
  unfold collapseWith
  split
  . trivial
  . trivial
  . next hnil hone => exact ⟨two_le_length hnil hone, h⟩

def Lone (digit : κ → Nat → Fin n) (t : Tree n κ α) (k : κ) (d : Nat) (k' : κ) : Prop :=
  ∃ e, d ≤ e ∧ (∀ j < e, digit k' j = digit k j)
    ∧ ∀ z ∈ t.items, (∀ j < e, digit z.1 j = digit k j) → z.1 = k ∨ z.1 = k'

def Kept (digit : κ → Nat → Fin n) (g : α → α) (t : Tree n κ α) (k : κ) (d : Nat) (x : κ × α) : Prop :=
  x.1 ≠ k ∧ ∃ a, (x.1, a) ∈ t.items
    ∧ (Lone digit t k d x.1 ∧ x.2 = g a ∨ ¬ Lone digit t k d x.1 ∧ x.2 = a)

theorem Kept.mem_keys (h : Kept digit g t k d x) : ∃ a, (x.1, a) ∈ t.items := by
  obtain ⟨_, a, ha, _⟩ := h
  exact ⟨a, ha⟩

theorem kept_iff_of_fixed (hfix : ∀ x ∈ t.items, g x.2 = x.2)
    : Kept digit g t k d x ↔ x ∈ t.items ∧ x.1 ≠ k := by
  constructor
  . rintro ⟨hne, a, ha, hval⟩
    have hval : x.2 = a := by
      rcases hval with ⟨_, hval⟩ | ⟨_, hval⟩
      . exact hval.trans (hfix _ ha)
      . exact hval
    rw [← hval] at ha
    exact ⟨ha, hne⟩
  rintro ⟨hx, hne⟩
  refine ⟨hne, x.2, hx, ?_⟩
  rw [hfix x hx]
  exact (em _).imp (⟨·, rfl⟩) (⟨·, rfl⟩)

section

variable {x : κ × α}

def Remains (digit : κ → Nat → Fin n) (g : α → α) (c : Fin n → Tree n κ α) (k : κ) (d : Nat)
    (x : κ × α) : Prop :=
  Kept digit g (c (digit k d)) k (d + 1) x ∨ ∃ i, i ≠ digit k d ∧ x ∈ (c i).items

theorem Remains.mem (h : Remains digit g c k d x) (hp : Placed digit d (inner c))
    : x.1 ≠ k ∧ ∃ a, (x.1, a) ∈ (inner c).items := by
  rcases h with hkept | ⟨i, hi, hx⟩
  . obtain ⟨a, ha⟩ := hkept.mem_keys
    exact ⟨hkept.1, a, mem_items_inner.mpr ⟨_, ha⟩⟩
  refine ⟨?_, x.2, mem_items_inner.mpr ⟨i, hx⟩⟩
  rintro rfl
  exact hi (hp.digit_eq hx).symm

theorem exists_remains (hmem : (k', a) ∈ (inner c).items) (hne : k' ≠ k)
    : ∃ a', Remains digit g c k d (k', a') := by
  obtain ⟨i, hi⟩ := mem_items_inner.mp hmem
  by_cases hb : i = digit k d
  . subst hb
    by_cases hlone : Lone digit (c (digit k d)) k (d + 1) k'
    . exact ⟨g a, .inl ⟨hne, a, hi, .inl ⟨hlone, rfl⟩⟩⟩
    . exact ⟨a, .inl ⟨hne, a, hi, .inr ⟨hlone, rfl⟩⟩⟩
  . exact ⟨a, .inr ⟨i, hb, hi⟩⟩

theorem lone_of_alone (hb : Below digit k d (inner c)) (hmem : ∃ a, (k', a) ∈ (inner c).items)
    (halone : ∀ z ∈ (inner c).items, z.1 = k ∨ z.1 = k')
    : Lone digit (inner c) k d k' := by
  obtain ⟨a, ha⟩ := hmem
  exact ⟨d, Nat.le_refl d, fun j hj => hb _ ha j hj, fun z hz _ => halone z hz⟩

theorem lone_iff_of_others (hp : Placed digit d (inner c)) (hb : Below digit k d (inner c))
    (hother : ∃ z ∈ (inner c).items, z.1 ≠ k ∧ z.1 ≠ k')
    : Lone digit (inner c) k d k' ↔ digit k' d = digit k d ∧ Lone digit (c (digit k d)) k (d + 1) k' := by
  constructor
  . rintro ⟨e, hde, hagree, halone⟩
    have hlt : d < e := by
      rcases Nat.lt_or_eq_of_le hde with hlt | rfl
      . exact hlt
      obtain ⟨z, hz, hzk, hzk'⟩ := hother
      rcases halone z hz (fun j hj => hb z hz j hj) with heq | heq
      . exact absurd heq hzk
      . exact absurd heq hzk'
    refine ⟨hagree d hlt, e, hlt, hagree, ?_⟩
    intro z hz hzagree
    exact halone z (mem_items_inner.mpr ⟨_, hz⟩) hzagree
  rintro ⟨hdigit, e, hde, hagree, halone⟩
  refine ⟨e, by omega, hagree, ?_⟩
  intro z hz hzagree
  refine halone z ?_ hzagree
  have hzd := hzagree d (by omega)
  rw [hp.mem_iff, hzd] at hz
  exact hz

theorem remains_iff_of_lone (hp : Placed digit d (inner c))
    (hlone : Lone digit (inner c) k e x.1
      ↔ digit x.1 d = digit k d ∧ Lone digit (c (digit k d)) k (d + 1) x.1)
    : Remains digit g c k d x ↔ Kept digit g (inner c) k e x := by
  constructor
  . rintro (⟨hne, a, ha, hval⟩ | ⟨i, hi, hx⟩)
    . have hdigit : digit x.1 d = digit k d := hp.digit_eq (x := (x.1, a)) ha
      refine ⟨hne, a, mem_items_inner.mpr ⟨_, ha⟩, ?_⟩
      rw [hlone]
      simpa [hdigit] using hval
    have hdigit : digit x.1 d ≠ digit k d := by
      rw [hp.digit_eq hx]
      exact hi
    refine ⟨fun heq => hdigit (by rw [heq]), x.2, mem_items_inner.mpr ⟨i, hx⟩, .inr ⟨?_, rfl⟩⟩
    rw [hlone]
    exact fun h => hdigit h.1
  rintro ⟨hne, a, ha, hval⟩
  rw [hlone] at hval
  rw [hp.mem_iff] at ha
  by_cases hdigit : digit x.1 d = digit k d
  . left
    rw [hdigit] at ha
    exact ⟨hne, a, ha, by simpa [hdigit] using hval⟩
  right
  have hval : x.2 = a := by simpa [hdigit] using hval
  refine ⟨digit x.1 d, hdigit, ?_⟩
  rw [← hval] at ha
  exact ha

theorem kept_iff_of_alone (hg : ∀ a, g (g a) = g a) (hp : Placed digit d (inner c))
    (hb : Below digit k d (inner c)) (halone : ∀ z ∈ (inner c).items, z.1 = k ∨ z.1 = x.1)
    : Kept digit g (inner c) k d x ↔ ∃ w, Remains digit g c k d (x.1, w) ∧ x.2 = g w := by
  constructor
  . rintro ⟨hne, a, ha, hval⟩
    have hlone := lone_of_alone hb ⟨a, ha⟩ halone
    have hval : x.2 = g a := by simpa [hlone] using hval
    obtain ⟨i, hi⟩ := mem_items_inner.mp ha
    by_cases hik : i = digit k d
    . subst hik
      by_cases hbelow : Lone digit (c (digit k d)) k (d + 1) x.1
      . exact ⟨g a, .inl ⟨hne, a, hi, .inl ⟨hbelow, rfl⟩⟩, by rw [hg, hval]⟩
      . exact ⟨a, .inl ⟨hne, a, hi, .inr ⟨hbelow, rfl⟩⟩, hval⟩
    . exact ⟨a, .inr ⟨i, hik, hi⟩, hval⟩
  rintro ⟨w, hleft, hval⟩
  have hmem := hleft.mem hp
  have hlone := lone_of_alone hb hmem.2 halone
  rcases hleft with ⟨_, a, ha, ⟨_, hw⟩ | ⟨_, hw⟩⟩ | ⟨i, _, hx⟩
  . refine ⟨hmem.1, a, mem_items_inner.mpr ⟨_, ha⟩, .inl ⟨hlone, ?_⟩⟩
    rw [hval, show w = g a from hw, hg]
  . refine ⟨hmem.1, a, mem_items_inner.mpr ⟨_, ha⟩, .inl ⟨hlone, ?_⟩⟩
    rw [hval, show w = a from hw]
  . exact ⟨hmem.1, w, mem_items_inner.mpr ⟨i, hx⟩, .inl ⟨hlone, hval⟩⟩

end

theorem mem_items_collapseWith
    : x ∈ (t.collapseWith g).items
        ↔ ∃ y ∈ t.items, x.1 = y.1 ∧ (t.items = [y] ∧ x.2 = g y.2 ∨ 2 ≤ t.items.length ∧ x.2 = y.2) := by
  by_cases htwo : 2 ≤ t.items.length
  . rw [collapseWith_of_two_le htwo]
    constructor
    . intro hx
      exact ⟨x, hx, rfl, .inr ⟨htwo, rfl⟩⟩
    rintro ⟨y, hy, hkey, ⟨hone, _⟩ | ⟨_, hval⟩⟩
    . rw [hone] at htwo
      exact absurd htwo (by simp)
    . rwa [Prod.ext hkey hval]
  unfold collapseWith
  generalize t.items = l at htwo
  match l, htwo with
  | [], _ => simp
  | [y], _ =>
    simp only [items_leaf, mem_singleton, exists_eq_left, length_singleton]
    constructor
    . rintro rfl
      exact ⟨rfl, .inl ⟨trivial, rfl⟩⟩
    rintro ⟨hkey, ⟨_, hval⟩ | ⟨hle, _⟩⟩
    . exact Prod.ext hkey hval
    . omega
  | _ :: _ :: _, htwo => exact absurd (by simp) htwo

section

variable [DecidableEq κ]

def eraseWith (digit : κ → Nat → Fin n) (g : α → α) (k : κ) : Nat → Tree n κ α → Tree n κ α
  | _, nil => nil
  | _, leaf k' a' => if k = k' then nil else leaf k' a'
  | d, inner c =>
    (inner (Function.update c (digit k d)
      (eraseWith digit g k (d + 1) (c (digit k d))))).collapseWith g

def eraseRootWith (digit : κ → Nat → Fin n) (g : α → α) (k : κ) : Tree n κ α → Tree n κ α
  | inner c => inner (Function.update c (digit k 0) (eraseWith digit g k 1 (c (digit k 0))))
  | t => t

variable {k : κ}

theorem mem_keys_eraseWith (h : x ∈ (eraseWith digit g k d t).items) : ∃ a, (x.1, a) ∈ t.items := by
  induction t generalizing d x with
  | nil => cases h
  | leaf k' a' =>
    unfold eraseWith at h
    split at h
    . cases h
    . exact ⟨x.2, h⟩
  | inner c ih =>
    rw [eraseWith, mem_items_collapseWith] at h
    obtain ⟨y, hy, hkey, _⟩ := h
    rw [hkey]
    rw [mem_items_update] at hy
    rcases hy with hy | ⟨j, _, hy⟩
    . obtain ⟨a, ha⟩ := ih _ hy
      exact ⟨a, mem_items_inner.mpr ⟨_, ha⟩⟩
    . exact ⟨y.2, mem_items_inner.mpr ⟨j, hy⟩⟩

theorem Placed.update_eraseWith (hp : Placed digit d (inner c))
    (hchild : Placed digit (d + 1) (eraseWith digit g k (d + 1) (c (digit k d))))
    : Placed digit d (inner (Function.update c (digit k d)
        (eraseWith digit g k (d + 1) (c (digit k d))))) := by
  apply Placed.update
  . intro j _
    exact hp j
  . intro x hx
    obtain ⟨a, ha⟩ := mem_keys_eraseWith hx
    exact hp.digit_eq (x := (x.1, a)) ha
  . exact hchild

theorem placed_eraseWith (hp : Placed digit d t) : Placed digit d (eraseWith digit g k d t) := by
  induction t generalizing d with
  | nil => trivial
  | leaf k' a' =>
    simp only [eraseWith]
    split <;> trivial
  | inner c ih =>
    apply Placed.collapseWith
    apply hp.update_eraseWith
    exact ih _ (hp.child _)

theorem compact_eraseWith (hc : t.Compact) : (eraseWith digit g k d t).Compact := by
  induction t generalizing d with
  | nil => trivial
  | leaf k' a' =>
    simp only [eraseWith]
    split <;> trivial
  | inner c ih =>
    apply compact_collapseWith
    apply compact_update
    . intro j _
      exact hc.child j
    . exact ih _ (hc.child _)

theorem mem_items_eraseWith (hg : ∀ a, g (g a) = g a)
    (hp : Placed digit d t) (hc : t.Compact) (hb : Below digit k d t) (hk : ∃ a, (k, a) ∈ t.items)
    : x ∈ (eraseWith digit g k d t).items ↔ Kept digit g t k d x := by
  induction t generalizing d x with
  | nil =>
    obtain ⟨a, ha⟩ := hk
    cases ha
  | leaf k' a' =>
    obtain ⟨a, ha⟩ := hk
    cases mem_singleton.mp ha
    unfold eraseWith
    rw [if_pos rfl]
    constructor
    . intro hx
      cases hx
    rintro ⟨hne, b, hb', _⟩
    cases mem_singleton.mp hb'
    exact absurd rfl hne
  | inner c ih =>
    obtain ⟨a, ha⟩ := hk
    have hchild : ∃ a, (k, a) ∈ (c (digit k d)).items := ⟨a, hp.mem_iff.mp ha⟩
    have hleft : ∀ y, y ∈ (inner (Function.update c (digit k d)
        (eraseWith digit g k (d + 1) (c (digit k d))))).items ↔ Remains digit g c k d y := by
      intro y
      rw [mem_items_update, ih _ (hp.child _) (hc.child _) (hb.child hp) hchild]
      rfl
    have hplaced := hp.update_eraseWith (placed_eraseWith (g := g) (k := k) (hp.child (digit k d)))
    rw [eraseWith]
    generalize Function.update c (digit k d) (eraseWith digit g k (d + 1) (c (digit k d))) = c'
      at hleft hplaced
    rw [mem_items_collapseWith]
    by_cases htwo : 2 ≤ (inner c').items.length
    . -- one of the two items that are left is not `x`
      have hother : ∃ z ∈ (inner c).items, z.1 ≠ k ∧ z.1 ≠ x.1 := by
        obtain ⟨y, hy, z, hz, hyz⟩ := hplaced.two_le_iff.mp htwo
        obtain ⟨hyk, b, hb'⟩ := ((hleft y).mp hy).mem hp
        obtain ⟨hzk, e, he⟩ := ((hleft z).mp hz).mem hp
        by_cases hyx : y.1 = x.1
        . exact ⟨_, he, hzk, fun hzx => hyz (hyx.trans hzx.symm)⟩
        . exact ⟨_, hb', hyk, hyx⟩
      rw [← remains_iff_of_lone hp (lone_iff_of_others hp hb hother), ← hleft]
      constructor
      . rintro ⟨y, hy, hkey, ⟨hone, _⟩ | ⟨_, hval⟩⟩
        . rw [hone] at htwo
          exact absurd htwo (by simp)
        . rwa [Prod.ext hkey hval]
      intro hx
      exact ⟨x, hx, rfl, .inr ⟨htwo, rfl⟩⟩
    have hone : ∀ y ∈ (inner c').items, (inner c').items = [y] := by
      intro y hy
      generalize (inner c').items = l at htwo hy
      match l, htwo with
      | [], _ => cases hy
      | [z], _ => rw [mem_singleton.mp hy]
      | _ :: _ :: _, htwo => exact absurd (by simp) htwo
    have halone : ∀ y ∈ (inner c').items, ∀ z ∈ (inner c).items, z.1 = k ∨ z.1 = y.1 := by
      intro y hy z hz
      by_cases hzk : z.1 = k
      . exact .inl hzk
      obtain ⟨w, hw⟩ := exists_remains (g := g) hz hzk
      have hmem := (hleft _).mpr hw
      rw [hone y hy] at hmem
      rw [← mem_singleton.mp hmem]
      exact .inr rfl
    constructor
    . rintro ⟨y, hy, hkey, ⟨_, hval⟩ | ⟨hle, _⟩⟩
      . rw [kept_iff_of_alone hg hp hb (by rw [hkey]; exact halone y hy), hkey]
        exact ⟨y.2, (hleft y).mp hy, hval⟩
      . exact absurd hle htwo
    intro hkept
    obtain ⟨a, ha⟩ := hkept.mem_keys
    obtain ⟨w, hw⟩ := exists_remains (g := g) ha hkept.1
    have hmem := (hleft _).mpr hw
    obtain ⟨v, hv, hval⟩ := (kept_iff_of_alone (x := x) hg hp hb (halone (x.1, w) hmem)).mp hkept
    have hmemv := (hleft _).mpr hv
    exact ⟨(x.1, v), hmemv, rfl, .inl ⟨hone _ hmemv, hval⟩⟩

theorem Canonical.eraseRootWith (h : Canonical digit t)
    : Canonical digit (eraseRootWith digit g k t) := by
  cases t with
  | nil => exact h.elim
  | leaf => exact h.elim
  | inner c =>
    constructor
    . exact h.1.update_eraseWith (placed_eraseWith (h.1.child _))
    apply compact_update
    . intro j _
      exact h.2 j
    . exact compact_eraseWith (h.2 _)

theorem Canonical.mem_items_eraseRootWith (hg : ∀ a, g (g a) = g a)
    (h : Canonical digit t) (hk : ∃ a, (k, a) ∈ t.items)
    : x ∈ (Tree.eraseRootWith digit g k t).items ↔ Kept digit g t k 1 x := by
  cases t with
  | nil => exact h.elim
  | leaf => exact h.elim
  | inner c =>
    obtain ⟨a, ha⟩ := hk
    have hb : Below digit k 0 (inner c) := below_zero k _
    have hchild : ∃ a, (k, a) ∈ (c (digit k 0)).items := ⟨a, h.1.mem_iff.mp ha⟩
    have hlone : ∀ k', Lone digit (inner c) k 1 k'
        ↔ digit k' 0 = digit k 0 ∧ Lone digit (c (digit k 0)) k 1 k' := by
      intro k'
      constructor
      . rintro ⟨e, he, hagree, halone⟩
        refine ⟨hagree 0 (by omega), e, he, hagree, ?_⟩
        intro z hz
        exact halone z (mem_items_inner.mpr ⟨_, hz⟩)
      rintro ⟨_, e, he, hagree, halone⟩
      refine ⟨e, he, hagree, ?_⟩
      intro z hz hzagree
      refine halone z ?_ hzagree
      rw [h.1.mem_iff, hzagree 0 (by omega)] at hz
      exact hz
    rw [Tree.eraseRootWith, mem_items_update,
      mem_items_eraseWith hg (h.1.child _) (h.2 _) (hb.child h.1) hchild]
    exact remains_iff_of_lone h.1 (hlone x.1)

end

end Tree

end Radix
