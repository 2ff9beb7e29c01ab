import Mathlib.Data.List.Infix

/-!
This module contains the runs of a deterministic transition system and the positions of a run,
which are the prefixes of its list of actions.
-/

open List

namespace Transition

variable {σ α : Type} (step : σ → α → σ)

def run (s : σ) (actions : List α) : σ := actions.foldl step s

@[simp]
theorem run_nil (s : σ) : run step s [] = s := rfl

@[simp]
theorem run_concat (s : σ) (actions : List α) (a : α)
    : run step s (actions ++ [a]) = step (run step s actions) a := by
  simp [run]

theorem run_append (s : σ) (p q : List α) : run step s (p ++ q) = run step (run step s p) q := by
  simp [run]

def Occurs (p : List α) (a : α) (actions : List α) : Prop := p ++ [a] <+: actions

variable {p q : List α} {a : α} {actions : List α}

theorem Occurs.of_append : Occurs p a (p ++ a :: q) := by
  exact ⟨q, by simp⟩

theorem Occurs.prefix_left (h : Occurs p a actions) : p <+: actions := by
  exact (prefix_append p [a]).trans h

theorem Occurs.trans (h : Occurs p a q) (hq : q <+: actions) : Occurs p a actions := by
  exact List.IsPrefix.trans h hq

theorem Occurs.trichotomy (ha : Occurs p a actions) (hb : Occurs q b actions)
    : (p = q ∧ a = b) ∨ Occurs p a q ∨ Occurs q b p := by
  obtain ⟨r, hr⟩ := ha
  obtain ⟨r', hr'⟩ := hb
  have h : p ++ a :: r = q ++ b :: r' := by simpa using hr.trans hr'.symm
  rcases append_eq_append_iff.mp h with ⟨c, hq, hc⟩ | ⟨c, hp, hc⟩
  . cases c with
    | nil =>
      left
      simp_all
    | cons d c =>
      right
      left
      have hd : a = d := by simp_all
      rw [hq, ← hd]
      apply Occurs.of_append
  cases c with
  | nil =>
    left
    simp_all
  | cons d c =>
    right
    right
    have hd : b = d := by simp_all
    rw [hp, ← hd]
    apply Occurs.of_append

theorem run_invariant (Inv : σ → Prop) (ok : α → Prop) (hinit : Inv s)
    (hstep : ∀ s a, ok a → Inv s → Inv (step s a)) (hok : ∀ a ∈ actions, ok a)
    : Inv (run step s actions) := by
  induction actions using reverseRecOn with
  | nil => exact hinit
  | append_singleton actions a ih =>
    rw [run_concat]
    apply hstep
    . apply hok
      simp
    apply ih
    intro b hb
    apply hok
    simp [hb]

theorem exists_occurs_of_run {P : σ → Prop} (hinit : ¬ P s) (hrun : P (run step s actions))
    : ∃ p a, Occurs p a actions ∧ ¬ P (run step s p) ∧ P (step (run step s p) a) := by
  induction actions using reverseRecOn with
  | nil => exact absurd hrun hinit
  | append_singleton actions a ih =>
    by_cases h : P (run step s actions)
    . obtain ⟨p, b, hp, hb⟩ := ih h
      exact ⟨p, b, hp.trans (prefix_append _ _), hb⟩
    rw [run_concat] at hrun
    exact ⟨actions, a, prefix_rfl, h, hrun⟩

end Transition
