import Mathlib.Data.List.Basic

/-!
This module contains the selection of the best and the second best candidate under a ranking.
-/

open List

namespace Search

section TopTwo

variable (outranks : Nat → Nat → Bool)

def topTwo.step (top : Nat × Nat) (i : Nat) : Nat × Nat :=
  if outranks i top.1 then
    (i, top.1)
  else if outranks i top.2 then
    (top.1, i)
  else
    top

def topTwo (n : Nat) : Nat × Nat :=
  (range' 2 (n - 2)).foldl (topTwo.step outranks) (if outranks 1 0 then (1, 0) else (0, 1))

structure IsTopTwo (n : Nat) (top : Nat × Nat) : Prop where
  fst_lt : top.1 < n
  snd_lt : top.2 < n
  ne : top.1 ≠ top.2
  fst_outranks : ∀ i < n, i ≠ top.1 → outranks top.1 i
  snd_outranks : ∀ i < n, i ≠ top.1 → i ≠ top.2 → outranks top.2 i

variable {outranks}

theorem topTwo.step_isTopTwo
    (htrans : ∀ i j k, i ≤ n → j ≤ n → k ≤ n → outranks i j → outranks j k → outranks i k)
    (htotal : ∀ i j, i ≤ n → j ≤ n → i ≠ j → outranks i j ∨ outranks j i)
    (htop : IsTopTwo outranks n top)
    : IsTopTwo outranks (n + 1) (step outranks top n) := by
  have h1 := htop.fst_lt
  have h2 := htop.snd_lt
  have hne := htop.ne
  unfold step
  split
  . next hbest =>
    refine ⟨by simp, by dsimp; omega, by dsimp; omega, ?_, ?_⟩
    . intro i hi hin
      by_cases hi1 : i = top.1
      . rwa [hi1]
      exact htrans n top.1 i (by omega) (by omega) (by omega) hbest
        (htop.fst_outranks i (by omega) hi1)
    intro i hi hin hi1
    exact htop.fst_outranks i (by dsimp at *; omega) hi1
  . next hbest =>
    have hfst : outranks top.1 n := by
      cases htotal top.1 n (by omega) (by omega) (by omega) with
      | inl h => exact h
      | inr h => contradiction
    split
    . next hsecond =>
      refine ⟨by dsimp; omega, by simp, by dsimp; omega, ?_, ?_⟩
      . intro i hi hi1
        by_cases hin : i = n
        . rwa [hin]
        . exact htop.fst_outranks i (by omega) hi1
      intro i hi hi1 hin
      by_cases hi2 : i = top.2
      . rwa [hi2]
      exact htrans n top.2 i (by omega) (by omega) (by omega) hsecond
        (htop.snd_outranks i (by omega) hi1 hi2)
    . next hsecond =>
      have hsnd : outranks top.2 n := by
        cases htotal top.2 n (by omega) (by omega) (by omega) with
        | inl h => exact h
        | inr h => contradiction
      refine ⟨by omega, by omega, hne, ?_, ?_⟩
      . intro i hi hi1
        by_cases hin : i = n
        . rwa [hin]
        . exact htop.fst_outranks i (by omega) hi1
      intro i hi hi1 hi2
      by_cases hin : i = n
      . rwa [hin]
      . exact htop.snd_outranks i (by omega) hi1 hi2

theorem topTwo_isTopTwo (hn : 2 ≤ n)
    (htrans : ∀ i j k, i < n → j < n → k < n → outranks i j → outranks j k → outranks i k)
    (htotal : ∀ i j, i < n → j < n → i ≠ j → outranks i j ∨ outranks j i)
    : IsTopTwo outranks n (topTwo outranks n) := by
  have hstart : IsTopTwo outranks 2 (if outranks 1 0 then (1, 0) else (0, 1)) := by
    split
    . next h =>
      refine ⟨by decide, by decide, by decide, ?_, ?_⟩
      . intro i hi hi1
        have : i = 0 := by dsimp at *; omega
        rwa [this]
      intro i hi hi1 hi2
      omega
    . next h =>
      refine ⟨by decide, by decide, by decide, ?_, ?_⟩
      . intro i hi hi1
        have : i = 1 := by dsimp at *; omega
        rw [this]
        exact (htotal 0 1 (by omega) (by omega) (by omega)).resolve_right h
      intro i hi hi1 hi2
      omega
  -- The pass keeps the best two of the candidates seen so far.
  have hpass : ∀ m, m + 2 ≤ n → IsTopTwo outranks (m + 2)
      ((range' 2 m).foldl (topTwo.step outranks) (if outranks 1 0 then (1, 0) else (0, 1))) := by
    intro m
    induction m with
    | zero =>
      intro _
      exact hstart
    | succ m ih =>
      intro hm
      rw [range'_1_concat, foldl_append, foldl_cons, foldl_nil, Nat.add_comm 2 m]
      apply topTwo.step_isTopTwo _ _ (ih (by omega))
      . intro i j k hi hj hk
        exact htrans i j k (by omega) (by omega) (by omega)
      intro i j hi hj
      exact htotal i j (by omega) (by omega)
  have := hpass (n - 2) (by omega)
  rwa [Nat.sub_add_cancel hn] at this

end TopTwo

section Greatest

variable {α : Type} [BEq α] [LawfulBEq α]

def greatest (outranks : α → α → Bool) (l : List α) : Option α :=
  l.find? (fun b => l.all (fun x => x == b || outranks b x))

theorem greatest_eq_some (hasymm : ∀ x y, outranks x y → ¬outranks y x) {b : α} (hb : b ∈ l)
    (htop : ∀ x ∈ l, x ≠ b → outranks b x)
    : greatest outranks l = some b := by
  have hall : l.all (fun x => x == b || outranks b x) := by
    rw [all_eq_true]
    intro x hx
    by_cases hxb : x = b
    . simp [hxb]
    . simp [htop x hx hxb]
  unfold greatest
  cases hfind : l.find? (fun b => l.all (fun x => x == b || outranks b x)) with
  | none =>
    rw [find?_eq_none] at hfind
    exact absurd hall (hfind b hb)
  | some c =>
    have hc := mem_of_find?_eq_some hfind
    have hcall := find?_some hfind
    simp only [all_eq_true, Bool.or_eq_true, beq_iff_eq] at hcall
    congr 1
    apply Classical.byContradiction
    intro hcb
    have hcb' := (hcall b hb).resolve_left (Ne.symm hcb)
    exact hasymm c b hcb' (htop c hc hcb)

theorem greatest_congr
    (hasymm : ∀ x y, outranks x y → ¬outranks y x) {l l' : List α} (hmem : ∀ x, x ∈ l ↔ x ∈ l')
    : greatest outranks l = greatest outranks l' := by
  have htop : ∀ {l l' : List α}, (∀ x, x ∈ l ↔ x ∈ l') → ∀ b, greatest outranks l = some b →
      greatest outranks l' = some b := by
    intro l l' hmem b hb
    have hall := find?_some hb
    simp only [all_eq_true, Bool.or_eq_true, beq_iff_eq] at hall
    apply greatest_eq_some hasymm
    . rw [← hmem]
      exact mem_of_find?_eq_some hb
    intro x hx hxb
    rw [← hmem] at hx
    exact (hall x hx).resolve_left hxb
  cases hl : greatest outranks l with
  | some b => rw [htop hmem b hl]
  | none =>
    cases hl' : greatest outranks l' with
    | none => rfl
    | some b =>
      have := htop (fun x => (hmem x).symm) b hl'
      rw [this] at hl
      contradiction

end Greatest

end Search
