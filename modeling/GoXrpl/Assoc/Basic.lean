import Mathlib.Data.List.AList

/-!
This module contains the map over the values of an association list, and two lookups of which one is
the inverse of the other.
-/

open List AList

namespace Assoc

variable {K V W : Type}

theorem keys_map (f : K → V → W) (l : List (Sigma fun _ : K => V))
    : (l.map fun e => (⟨e.1, f e.1 e.2⟩ : Sigma fun _ : K => W)).keys = l.keys := by
  induction l with
  | nil => rfl
  | cons e l ih =>
    rw [map_cons, keys_cons, keys_cons, ih]

def mapValues (f : K → V → W) (m : AList fun _ : K => V) : AList fun _ : K => W where
  entries := m.entries.map fun e => ⟨e.1, f e.1 e.2⟩
  nodupKeys := by
    unfold List.NodupKeys
    rw [keys_map]
    exact m.nodupKeys

variable [DecidableEq K]

theorem dlookup_map (f : K → V → W) (l : List (Sigma fun _ : K => V)) (k : K)
    : (l.map fun e => (⟨e.1, f e.1 e.2⟩ : Sigma fun _ : K => W)).dlookup k
        = (l.dlookup k).map (f k) := by
  induction l with
  | nil => rfl
  | cons e l ih =>
    obtain ⟨k', v⟩ := e
    rw [map_cons]
    by_cases heq : k = k'
    . subst heq
      rw [dlookup_cons_eq, dlookup_cons_eq]
      rfl
    . rw [dlookup_cons_ne _ _ heq, dlookup_cons_ne _ _ heq, ih]

@[simp]
theorem lookup_mapValues (f : K → V → W) (m : AList fun _ : K => V) (k : K)
    : (mapValues f m).lookup k = (m.lookup k).map (f k) :=
  dlookup_map f m.entries k

variable {m : AList fun _ : K => V}

theorem mem_of_lookup (h : m.lookup k = some v) : k ∈ m := by
  rw [← lookup_isSome, h]
  rfl

theorem lookup_insert_cases (h : (m.insert k v).lookup k' = some v')
    : (k' = k ∧ v' = v) ∨ m.lookup k' = some v' := by
  by_cases hk : k' = k
  . subst hk
    rw [lookup_insert] at h
    exact .inl ⟨rfl, (Option.some.inj h).symm⟩
  rw [lookup_insert_ne hk] at h
  exact .inr h

theorem mem_entries_iff : (⟨k, v⟩ : Sigma fun _ : K => V) ∈ m.entries ↔ m.lookup k = some v := by
  rw [← Option.mem_def]
  exact mem_lookup_iff.symm

def eraseWhen (p : V → Bool) (k : K) (m : AList fun _ : K => V) : AList fun _ : K => V :=
  match m.lookup k with
  | none => m
  | some v => if p v then m.erase k else m

theorem lookup_eraseWhen_iff
    : (eraseWhen p k m).lookup k' = some v ↔ m.lookup k' = some v ∧ (k' = k → p v = false) := by
  unfold eraseWhen
  split
  . next hnone =>
    constructor
    . intro hv
      refine ⟨hv, ?_⟩
      rintro rfl
      rw [hnone] at hv
      cases hv
    . exact And.left
  . next existing hexisting =>
    split
    . next hp =>
      by_cases hk : k' = k
      . subst hk
        rw [lookup_erase, hexisting]
        constructor
        . intro hv
          cases hv
        rintro ⟨hv, hnot⟩
        cases hv
        rw [hnot rfl] at hp
        cases hp
      rw [lookup_erase_ne hk]
      exact ⟨fun hv => ⟨hv, fun heq => absurd heq hk⟩, And.left⟩
    . next hp =>
      constructor
      . intro hv
        refine ⟨hv, ?_⟩
        rintro rfl
        rw [hexisting] at hv
        cases hv
        exact eq_false_of_ne_true hp
      . exact And.left

variable [DecidableEq V]

def Inverse (f : K → Option V) (g : V → Option K) : Prop := ∀ k v, g v = some k ↔ f k = some v

def reindex (g : V → Option K) (k : K) (old new : Option V) (v : V) : Option K :=
  if new = some v then some k else if old = some v then none else g v

theorem Inverse.update (h : Inverse f g) {k : K}
    {new : Option V} (hfresh : ∀ v, new = some v → g v = none)
    : Inverse (Function.update f k new) (reindex g k (f k) new) := by
  intro k' v
  unfold reindex
  by_cases hk : k' = k
  . subst hk
    rw [Function.update_self]
    split
    . next hnew => simp [hnew]
    . next hnew =>
      split
      . simp [hnew]
      . next hold =>
        rw [h k' v]
        simp [hold, hnew]
  rw [Function.update_of_ne hk]
  split
  . next hnew =>
    have habsent : f k' ≠ some v := by
      rw [ne_eq, ← h k' v, hfresh v hnew]
      simp
    simp [habsent, Ne.symm hk]
  split
  . next hold =>
    -- `k` had the value, so no other key has it
    have hkey := (h k v).mpr hold
    have habsent : f k' ≠ some v := by
      rw [ne_eq, ← h k' v, hkey, Option.some_inj]
      exact Ne.symm hk
    simp [habsent]
  . exact h k' v

end Assoc
