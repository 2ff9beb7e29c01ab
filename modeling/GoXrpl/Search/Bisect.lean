import Mathlib.Data.Nat.Notation

/-!
This module contains the bisection of an interval at the point where a predicate stops holding.
-/

namespace Search

def bisect (p : Nat → Bool) : Nat → Nat → Nat → Nat
  | 0, low, _ => low
  | fuel + 1, low, hi =>
    if low < hi then
      let mid := low + (hi - low) / 2
      if p mid then
        bisect p fuel (mid + 1) hi
      else
        bisect p fuel low mid
    else
      low

structure Threshold (p : Nat → Bool) (low hi r : Nat) : Prop where
  low_le : low ≤ r
  le_hi : r ≤ hi
  holds : ∀ i, low ≤ i → i < r → p i
  fails : ∀ i, r ≤ i → i < hi → ¬p i

theorem bisect_threshold (p : Nat → Bool) (fuel low hi : Nat) (hle : low ≤ hi)
    (hfuel : hi - low ≤ fuel) (hmono : ∀ i j, low ≤ i → i ≤ j → j < hi → p j → p i)
    : Threshold p low hi (bisect p fuel low hi) := by
  induction fuel generalizing low hi with
  | zero =>
    unfold bisect
    have : low = hi := by omega
    subst this
    exact ⟨Nat.le_refl _, Nat.le_refl _, by omega, by omega⟩
  | succ fuel ih =>
    unfold bisect
    split
    . next hlt =>
      dsimp only
      have hmid1 : low ≤ low + (hi - low) / 2 := by omega
      have hmid2 : low + (hi - low) / 2 < hi := by omega
      generalize low + (hi - low) / 2 = mid at *
      split
      . next hp =>
        have hrec := ih (mid + 1) hi (by omega) (by omega)
          (fun i j hi hij hj => hmono i j (by omega) hij hj)
        refine ⟨?_, hrec.le_hi, ?_, hrec.fails⟩
        . have := hrec.low_le
          omega
        intro i hlow hi
        cases Nat.lt_or_ge mid i with
        | inl h => exact hrec.holds i h hi
        | inr h => exact hmono i mid hlow h hmid2 hp
      . next hp =>
        have hrec := ih low mid hmid1 (by omega)
          (fun i j hi hij hj => hmono i j hi hij (by omega))
        refine ⟨hrec.low_le, ?_, hrec.holds, ?_⟩
        . have := hrec.le_hi
          omega
        intro i hr hi
        cases Nat.lt_or_ge i mid with
        | inl h => exact hrec.fails i hr h
        | inr h =>
          intro hpi
          apply hp
          exact hmono mid i hmid1 h hi hpi
    . next hge =>
      have : low = hi := by omega
      subst this
      exact ⟨Nat.le_refl _, Nat.le_refl _, by omega, by omega⟩

end Search
