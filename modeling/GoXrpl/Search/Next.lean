import Mathlib.Tactic.Tauto

/-!
This module contains the least element of a set above a given key.
-/

namespace Search

variable {κ : Type} [LT κ]

def IsNext (s : κ → Prop) (key : κ) : Option κ → Prop
  | none => ∀ k, s k → ¬ key < k
  | some next => s next ∧ key < next ∧ ∀ k, s k → key < k → ¬ k < next

namespace IsNext

variable {s t : κ → Prop}

theorem congr (h : IsNext s key next) (hst : ∀ k, t k ↔ s k) : IsNext t key next := by
  have : t = s := by
    funext k
    exact propext (hst k)
  rwa [this]

theorem or_right (hs : IsNext s key next) (ht : IsNext t key none)
    : IsNext (fun k => s k ∨ t k) key next := by
  cases next with
  | none =>
    rintro k (hk | hk)
    . exact hs k hk
    . exact ht k hk
  | some a =>
    obtain ⟨hmem, hgt, hleast⟩ := hs
    refine ⟨.inl hmem, hgt, ?_⟩
    rintro k (hk | hk) hkey
    . exact hleast k hk hkey
    . exact absurd hkey (ht k hk)

theorem or_comm (h : IsNext (fun k => s k ∨ t k) key next)
    : IsNext (fun k => t k ∨ s k) key next := by
  apply h.congr
  intro k
  exact Or.comm

variable [LE κ] [Std.LawfulOrderLT κ] [Std.IsLinearOrder κ]

theorem or_of_le (hs : IsNext s key (some a)) (ht : IsNext t key (some b)) (hab : ¬ b < a)
    : IsNext (fun k => s k ∨ t k) key (some a) := by
  obtain ⟨hmem, hgt, hleast⟩ := hs
  obtain ⟨_, _, hleast'⟩ := ht
  refine ⟨.inl hmem, hgt, ?_⟩
  rintro k (hk | hk) hkey hlt
  . exact hleast k hk hkey hlt
  apply hleast' k hk hkey
  exact Std.lt_of_lt_of_le hlt (Std.not_lt.mp hab)

theorem skip (hs : IsNext s key (some k)) (hsub : ∀ x, t x → s x) (hk : ¬ t k)
    (ht : IsNext t k next)
    : IsNext t key next := by
  obtain ⟨_, hgt, hleast⟩ := hs
  have habove : ∀ x, t x → key < x → k < x := by
    intro x hx hkey
    rcases Std.lt_trichotomy x k with hlt | heq | hlt
    . exact absurd hlt (hleast x (hsub x hx) hkey)
    . exact absurd (heq ▸ hx) hk
    . exact hlt
  cases next with
  | none =>
    intro x hx hkey
    exact ht x hx (habove x hx hkey)
  | some a =>
    obtain ⟨hmem, hka, hleast'⟩ := ht
    refine ⟨hmem, Std.lt_trans hgt hka, ?_⟩
    intro x hx hkey
    exact hleast' x hx (habove x hx hkey)

end IsNext

end Search
