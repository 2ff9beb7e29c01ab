import Mathlib.Data.List.TakeWhile
import Mathlib.Data.Nat.Digits.Lemmas

/-!
This module contains the change of the base of a number that is written with its leading zeros.
-/

open List Nat

namespace Positional

def value (b : Nat) (l : List Nat) : Nat := l.foldl (fun x d => x * b + d) 0

def zeros (l : List Nat) : Nat := (l.takeWhile (· = 0)).length

def recode (b b' : Nat) (l : List Nat) : List Nat :=
  List.replicate (zeros l) 0 ++ (digits b' (value b l)).reverse

theorem foldl_value (l : List Nat) (x : Nat)
    : l.foldl (fun x d => x * b + d) x = x * b ^ l.length + value b l := by
  unfold value
  induction l generalizing x with
  | nil => simp
  | cons d l ih =>
    rw [foldl_cons, foldl_cons, ih, ih (0 * b + d), length_cons]
    ring

theorem value_append (l l' : List Nat)
    : value b (l ++ l') = value b l * b ^ l'.length + value b l' := by
  rw [value, foldl_append, foldl_value]
  rfl

theorem value_eq_ofDigits (l : List Nat) : value b l = ofDigits b l.reverse := by
  induction l with
  | nil => rfl
  | cons d l ih =>
    rw [← singleton_append, value_append, reverse_append, ofDigits_append, ih,
      length_reverse, reverse_singleton, ofDigits_singleton]
    simp only [value, foldl_cons, foldl_nil]
    ring

theorem value_replicate_append (n : Nat) (l : List Nat)
    : value b (replicate n 0 ++ l) = value b l := by
  have hzero : value b (replicate n 0) = 0 := by
    rw [value_eq_ofDigits, reverse_replicate, ofDigits_replicate_zero]
  rw [value_append, hzero, zero_mul, zero_add]

theorem value_digits (n : Nat) : value b (digits b n).reverse = n := by
  rw [value_eq_ofDigits, reverse_reverse, ofDigits_digits]

theorem value_recode (l : List Nat) : value b' (recode b b' l) = value b l := by
  rw [recode, value_replicate_append, value_digits]

theorem zeros_replicate_append (n : Nat) (l : List Nat)
    : zeros (replicate n 0 ++ l) = n + zeros l := by
  unfold zeros
  rw [takeWhile_append_of_pos, length_append, length_replicate]
  intro d hd
  rw [eq_of_mem_replicate hd]
  rfl

theorem zeros_digits (n : Nat) : zeros (digits b n).reverse = 0 := by
  unfold zeros
  by_cases hn : n = 0
  . simp [hn]
  have hne := digits_ne_nil_iff_ne_zero (b := b).mpr hn
  have hlast := getLast_digit_ne_zero b hn
  rw [← dropLast_append_getLast hne, reverse_append, reverse_singleton,
    singleton_append, takeWhile_cons_of_neg]
  . rfl
  . simpa using hlast

theorem zeros_recode (l : List Nat) : zeros (recode b b' l) = zeros l := by
  rw [recode, zeros_replicate_append, zeros_digits, add_zero]

theorem recode_self (hb : 1 < b) (hl : ∀ d ∈ l, d < b) : recode b b l = l := by
  have hsplit := takeWhile_append_dropWhile (p := (· = 0)) (l := l)
  have hzeros : l.takeWhile (· = 0) = replicate (zeros l) 0 := by
    apply eq_replicate_of_mem
    intro d hd
    simpa using mem_takeWhile_imp hd
  have hrest : (digits b (value b (l.dropWhile (· = 0)))).reverse = l.dropWhile (· = 0) := by
    rw [value_eq_ofDigits, digits_ofDigits b hb, reverse_reverse]
    . intro d hd
      apply hl
      exact (dropWhile_sublist _).subset (mem_reverse.mp hd)
    intro hne
    rw [getLast_reverse]
    apply of_decide_eq_false
    exact head_dropWhile_not (· = 0) (reverse_ne_nil_iff.mp hne)
  rw [recode]
  nth_rewrite 2 [← hsplit]
  rw [hzeros, value_replicate_append, hrest, ← hzeros, hsplit]

theorem recode_recode (hb : 1 < b) (hl : ∀ d ∈ l, d < b) : recode b' b (recode b b' l) = l := by
  rw [recode, zeros_recode, value_recode]
  exact recode_self hb hl

theorem lt_of_mem_recode (hb' : 1 < b') (hd : d ∈ recode b b' l) : d < b' := by
  rcases mem_append.mp hd with hd | hd
  . rw [eq_of_mem_replicate hd]
    exact zero_lt_of_lt hb'
  . exact digits_lt_base hb' (mem_reverse.mp hd)

def fixedDigits (b : Nat) : Nat → Nat → List Nat
  | 0, _ => []
  | k + 1, m => m % b :: fixedDigits b k (m / b)

theorem digits_add_pow_mul (hb : 1 < b) (k : Nat) (hm : m < b ^ k) (hq : 0 < q)
    : digits b (m + b ^ k * q) = fixedDigits b k m ++ digits b q := by
  induction k generalizing m with
  | zero =>
    have hzero : m = 0 := by simpa using hm
    simp [hzero, fixedDigits]
  | succ k ih =>
    have hdiv : m / b < b ^ k := by
      apply Nat.div_lt_of_lt_mul
      rwa [Nat.pow_succ'] at hm
    have hsum : m + b ^ (k + 1) * q = m + b * (b ^ k * q) := by
      rw [Nat.pow_succ', Nat.mul_assoc]
    have hpos : 0 < m + b * (b ^ k * q) := by positivity
    rw [hsum, digits_def' hb hpos, add_mul_mod_self_left,
      add_mul_div_left _ _ (zero_lt_of_lt hb), ih hdiv]
    rfl

end Positional
