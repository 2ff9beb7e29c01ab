import Mathlib.Data.List.Basic

/-!
This module contains doubly linked lists: the cells from one cell to another, with links that are
inverse to each other.
-/

open List Function

structure Links (α : Type) where
  next : α → α
  prev : α → α

namespace Links

variable {α : Type}

def Path (L : Links α) : α → List α → α → Prop
  | a, [], b => L.next a = b ∧ L.prev b = a
  | a, c :: l, b => L.next a = c ∧ L.prev c = a ∧ Path L c l b

variable {L L' : Links α}

theorem path_append : L.Path a (l₁ ++ n :: l₂) b ↔ L.Path a l₁ n ∧ L.Path n l₂ b := by
  induction l₁ generalizing a with
  | nil => simp [Path, and_assoc]
  | cons c l₁ ih => simp [Path, ih, and_assoc]

namespace Path

theorem congr (h : L.Path a l b) (hnext : ∀ x ∈ a :: l, L'.next x = L.next x)
    (hprev : ∀ x ∈ l ++ [b], L'.prev x = L.prev x)
    : L'.Path a l b := by
  induction l generalizing a with
  | nil => exact ⟨(hnext a (by simp)).trans h.1, (hprev b (by simp)).trans h.2⟩
  | cons c l ih =>
    refine ⟨(hnext a (by simp)).trans h.1, (hprev c (by simp)).trans h.2.1, ih h.2.2 ?_ ?_⟩
    . intro x hx
      exact hnext x (mem_cons_of_mem a hx)
    intro x hx
    exact hprev x (mem_cons_of_mem c hx)

theorem prev_eq (h : L.Path a l b) : (a :: l).getLast? = some (L.prev b) := by
  induction l generalizing a with
  | nil => simp [h.2]
  | cons c l ih =>
    rw [getLast?_cons_cons]
    exact ih h.2.2

theorem prev_mem (h : L.Path a l b) : L.prev b ∈ a :: l :=
  mem_of_getLast? h.prev_eq

theorem next_mem (h : L.Path a l b) : L.next a ∈ l ++ [b] := by
  cases l with
  | nil => simp [h.1]
  | cons c l => simp [h.1]

end Path

variable [DecidableEq α]

def unlink (L : Links α) (n : α) : Links α where
  next := update L.next (L.prev n) (L.next n)
  prev := update L.prev (L.next n) (L.prev n)

def linkBefore (L : Links α) (b n : α) : Links α where
  next := update (update L.next (L.prev b) n) n b
  prev := update (update L.prev b n) n (L.prev b)

theorem Path.unlink (h : L.Path a (l₁ ++ n :: l₂) b) (hnodup : (a :: (l₁ ++ n :: l₂)).Nodup)
    (hb : b ∉ l₁ ++ n :: l₂)
    : (L.unlink n).Path a (l₁ ++ l₂) b := by
  induction l₁ generalizing a with
  | nil =>
    obtain ⟨hnext, hprev, hrest⟩ := h
    have ha : a ∉ n :: l₂ := (nodup_cons.mp hnodup).1
    cases l₂ with
    | nil =>
      constructor
      . simp [Links.unlink, hprev, hrest.1]
      . simp [Links.unlink, hprev, hrest.1]
    | cons c l₂ =>
      obtain ⟨hnext', hprev', hrest⟩ := hrest
      refine ⟨?_, ?_, hrest.congr ?_ ?_⟩
      . simp [Links.unlink, hprev, hnext']
      . simp [Links.unlink, hprev, hnext']
      . intro x hx
        have hxa : x ≠ a := fun heq => ha (mem_cons_of_mem n (heq ▸ hx))
        simp [Links.unlink, hprev, hxa]
      intro x hx
      have hxc : x ≠ c := by
        rintro rfl
        simp only [mem_append, mem_singleton] at hx
        rcases hx with hmem | rfl
        . simp [hmem] at hnodup
        . exact hb (by simp)
      simp [Links.unlink, hnext', hxc]
  | cons c l₁ ih =>
    obtain ⟨hnext, hprev, hrest⟩ := h
    have hbefore := (path_append.mp hrest).1.prev_mem
    have hafter := (path_append.mp hrest).2.next_mem
    have ha := (nodup_cons.mp hnodup).1
    have hnodup' := (nodup_cons.mp hnodup).2
    refine ⟨?_, ?_, ih hrest hnodup' (fun hmem => hb (mem_cons_of_mem c hmem))⟩
    . have hne : a ≠ L.prev n := by
        intro heq
        apply ha
        rw [heq]
        simp only [cons_append, mem_cons, mem_append] at hbefore ⊢
        tauto
      simp [Links.unlink, hne, hnext]
    have hne : c ≠ L.next n := by
      intro heq
      rw [← heq] at hafter
      simp only [mem_append, mem_singleton] at hafter
      rcases hafter with hmem | rfl
      . simp [hmem] at hnodup'
      . exact hb (by simp)
    simp [Links.unlink, hne, hprev]

theorem Path.linkBefore (h : L.Path a l b) (hnodup : (a :: l).Nodup) (hb : b ∉ l) (hn : n ∉ a :: l)
    (hnb : n ≠ b)
    : (L.linkBefore b n).Path a (l ++ [n]) b := by
  induction l generalizing a with
  | nil =>
    obtain ⟨hnext, hprev⟩ := h
    have hna : a ≠ n := fun heq => hn (by simp [heq])
    refine ⟨?_, ?_, ?_, ?_⟩
    . simp [Links.linkBefore, hprev, hna]
    . simp [Links.linkBefore, hprev]
    . simp [Links.linkBefore]
    . simp [Links.linkBefore, hnb.symm]
  | cons c l ih =>
    obtain ⟨hnext, hprev, hrest⟩ := h
    have ha := (nodup_cons.mp hnodup).1
    have hna : a ≠ n := fun heq => hn (by simp [heq])
    have hnc : c ≠ n := fun heq => hn (by simp [heq])
    have hcb : c ≠ b := fun heq => hb (by simp [heq])
    refine ⟨?_, ?_, ih hrest (nodup_cons.mp hnodup).2 (fun hmem => hb (mem_cons_of_mem c hmem))
      (fun hmem => hn (mem_cons_of_mem a hmem))⟩
    . have hne : a ≠ L.prev b := fun heq => ha (heq ▸ hrest.prev_mem)
      simp [Links.linkBefore, hna, hne, hnext]
    . simp [Links.linkBefore, hnc, hcb, hprev]

end Links
