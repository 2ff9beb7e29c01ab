import Mathlib.Data.List.Basic

/-!
This module contains the calls of a callback that may ask to stop, one for each value of a list in
turn, and what a callback that collects the values has at the end.
-/

open List

namespace Emission

variable {α σ : Type}

def emitAll (emit : α → σ → Bool × σ) : List α → σ → Bool × σ
  | [], s => (true, s)
  | a :: l, s =>
    match emit a s with
    | (true, s) => emitAll emit l s
    | (false, s) => (false, s)

section

variable (emit : α → σ → Bool × σ)

include emit

@[simp]
theorem emitAll_nil (s : σ) : emitAll emit [] s = (true, s) := rfl

theorem emitAll_cons (a : α) (l : List α) (s : σ)
    : emitAll emit (a :: l) s
        =
      match emit a s with
      | (true, s) => emitAll emit l s
      | (false, s) => (false, s) := rfl

theorem emitAll_append (l l' : List α) (s : σ)
    : emitAll emit (l ++ l') s
        =
      match emitAll emit l s with
      | (true, s) => emitAll emit l' s
      | (false, s) => (false, s) := by
  induction l generalizing s with
  | nil => rfl
  | cons a l ih =>
    rw [cons_append, emitAll_cons, emitAll_cons]
    rcases emit a s with ⟨_ | _, s⟩
    . rfl
    . exact ih s

theorem emitAll_singleton (a : α) (s : σ) : emitAll emit [a] s = emit a s := by
  rw [emitAll_cons]
  rcases emit a s with ⟨_ | _, s⟩ <;> rfl

end

def collectUpTo (unlimited : Bool) (limit : Nat) (a : α) (l : List α) : Bool × List α :=
  (unlimited || decide (l.length + 1 < limit), l ++ [a])

theorem emitAll_collectUpTo_unlimited (limit : Nat) (l seen : List α)
    : emitAll (collectUpTo true limit) l seen = (true, seen ++ l) := by
  induction l generalizing seen with
  | nil => simp
  | cons a l ih =>
    rw [emitAll_cons]
    show emitAll _ l (seen ++ [a]) = _
    rw [ih, append_assoc]
    rfl

theorem emitAll_collectUpTo_limited (l seen : List α) (h : seen.length < limit)
    : emitAll (collectUpTo false limit) l seen
        = (decide (seen.length + l.length < limit), seen ++ l.take (limit - seen.length)) := by
  induction l generalizing seen with
  | nil => simp [h]
  | cons a l ih =>
    rw [emitAll_cons]
    have hroom : limit - seen.length = (limit - (seen.length + 1)) + 1 := by omega
    rw [hroom, take_succ_cons]
    by_cases hlt : seen.length + 1 < limit
    . have hcollect : collectUpTo false limit a seen = (true, seen ++ [a]) := by
        simp [collectUpTo, hlt]
      rw [hcollect]
      have hseen : (seen ++ [a]).length = seen.length + 1 := by simp
      show emitAll _ l (seen ++ [a]) = _
      rw [ih (seen ++ [a]) (by omega), hseen, append_assoc, length_cons]
      congr 1
      simp only [decide_eq_decide]
      omega
    have hcollect : collectUpTo false limit a seen = (false, seen ++ [a]) := by
      simp [collectUpTo, hlt]
    rw [hcollect]
    have hfull : limit - (seen.length + 1) = 0 := by omega
    rw [hfull, take_zero, length_cons]
    have hstop : decide (seen.length + (l.length + 1) < limit) = false :=
      decide_eq_false (by omega)
    rw [hstop]

theorem emitAll_map {τ : Type} {emit' : α → τ → Bool × τ} {f : σ → τ}
    (h : ∀ a s, emit' a (f s) = ((emit a s).1, f (emit a s).2)) (l : List α) (s : σ)
    : emitAll emit' l (f s) = ((emitAll emit l s).1, f (emitAll emit l s).2) := by
  induction l generalizing s with
  | nil => rfl
  | cons a l ih =>
    rw [emitAll_cons, emitAll_cons, h]
    rcases emit a s with ⟨_ | _, s⟩
    . rfl
    . exact ih s

end Emission
