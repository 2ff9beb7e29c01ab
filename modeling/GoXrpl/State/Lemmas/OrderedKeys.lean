import GoXrpl.State.Impl.View
import GoXrpl.Search.Next

open List

namespace State

variable {keys : List Hash256}

namespace OrderedLedgerKeys

theorem search_cons (key k : Hash256) (keys : OrderedLedgerKeys)
    : search (k :: keys) key
        = if k < key then ((search keys key).1 + 1, (search keys key).2) else (0, k == key) := by
  unfold search
  by_cases h : k < key
  . simp [findIdx_cons, h]
  . simp [findIdx_cons, h]

theorem add_nil (key : Hash256)
    : add [] key = [key] := rfl

theorem add_cons (key k : Hash256) (keys : OrderedLedgerKeys)
    : add (k :: keys) key
        = if k < key then k :: add keys key else if k = key then k :: keys else key :: k :: keys := by
  unfold add
  rw [search_cons]
  by_cases h : k < key
  . by_cases hfound : (search keys key).2 = true
    . simp [h, hfound]
    . simp [h, hfound]
  by_cases heq : k = key
  . simp [heq, Vector.lt_irrefl]
  . simp [h, heq]

theorem remove_cons (key k : Hash256) (keys : OrderedLedgerKeys)
    : remove (k :: keys) key
        = if k < key then k :: remove keys key else if k = key then keys else k :: keys := by
  unfold remove
  rw [search_cons]
  by_cases h : k < key
  . by_cases hfound : (search keys key).2 = true
    . simp [h, hfound]
    . simp [h, hfound]
  by_cases heq : k = key
  . simp [heq, Vector.lt_irrefl]
  . simp [h, heq]

theorem successor_cons (key k : Hash256) (keys : OrderedLedgerKeys)
    : successor (k :: keys) key
        = if k < key then successor keys key else if k = key then keys.head? else some k := by
  unfold successor
  rw [search_cons]
  by_cases h : k < key
  . simp [h]
  by_cases heq : k = key
  . cases keys with
    | nil => simp [heq, Vector.lt_irrefl]
    | cons k' keys => simp [heq, Vector.lt_irrefl]
  . simp [h, heq]

theorem mem_add : k ∈ add keys key ↔ k = key ∨ k ∈ keys := by
  induction keys with
  | nil => simp [add_nil]
  | cons k' keys ih =>
    rw [add_cons]
    split
    . rw [mem_cons, ih, mem_cons]
      tauto
    split
    . next heq =>
      subst heq
      simp
    . simp

theorem pairwise_add (h : keys.Pairwise (· < ·)) : (add keys key).Pairwise (· < ·) := by
  induction keys with
  | nil => simp [add_nil]
  | cons k' keys ih =>
    obtain ⟨hk', hkeys⟩ := pairwise_cons.mp h
    rw [add_cons]
    split
    . next hlt =>
      apply pairwise_cons.mpr
      refine ⟨?_, ih hkeys⟩
      intro a ha
      rcases mem_add.mp ha with rfl | ha
      . exact hlt
      . exact hk' a ha
    . next hnlt =>
      split
      . exact h
      . next hne =>
        have hlt : key < k' := by
          by_contra hge
          exact hne (Vector.le_antisymm hge hnlt)
        apply pairwise_cons.mpr
        refine ⟨?_, h⟩
        intro a ha
        rcases mem_cons.mp ha with rfl | ha
        . exact hlt
        . exact Vector.lt_trans hlt (hk' a ha)

theorem mem_remove (h : keys.Pairwise (· < ·)) : k ∈ remove keys key ↔ k ≠ key ∧ k ∈ keys := by
  induction keys with
  | nil => simp [remove]
  | cons k' keys ih =>
    obtain ⟨hk', hkeys⟩ := pairwise_cons.mp h
    rw [remove_cons]
    split
    . next hlt =>
      rw [mem_cons, ih hkeys, mem_cons]
      constructor
      . rintro (rfl | ⟨hne, hmem⟩)
        . exact ⟨fun heq => Vector.lt_irrefl key (heq ▸ hlt), .inl rfl⟩
        . exact ⟨hne, .inr hmem⟩
      rintro ⟨hne, rfl | hmem⟩
      . exact .inl rfl
      . exact .inr ⟨hne, hmem⟩
    . next hnlt =>
      split
      . next heq =>
        subst heq
        constructor
        . intro hmem
          refine ⟨?_, mem_cons_of_mem _ hmem⟩
          rintro rfl
          exact Vector.lt_irrefl k (hk' k hmem)
        rintro ⟨hne, hmem⟩
        exact (mem_cons.mp hmem).resolve_left hne
      . next hne =>
        constructor
        . intro hmem
          refine ⟨?_, hmem⟩
          rintro rfl
          rcases mem_cons.mp hmem with rfl | hmem
          . exact hne rfl
          . exact hnlt (hk' k hmem)
        . exact fun h => h.2

theorem pairwise_remove (h : keys.Pairwise (· < ·)) : (remove keys key).Pairwise (· < ·) := by
  unfold remove
  split
  . exact h.sublist (eraseIdx_sublist _ _)
  . exact h

open Search in
theorem isNext_successor (h : keys.Pairwise (· < ·)) (key : Hash256)
    : IsNext (· ∈ keys) key (successor keys key) := by
  induction keys with
  | nil => simp [successor, IsNext]
  | cons k' keys ih =>
    obtain ⟨hk', hkeys⟩ := pairwise_cons.mp h
    rw [successor_cons]
    by_cases hlt : k' < key
    . rw [if_pos hlt]
      -- a key below the given one does not count
      have hbelow : IsNext (· = k') key none := by
        rintro k rfl hgt
        exact Vector.lt_irrefl key (Vector.lt_trans hgt hlt)
      apply ((ih hkeys).or_right hbelow).congr
      intro k
      rw [mem_cons, or_comm]
    rw [if_neg hlt]
    by_cases heq : k' = key
    . subst heq
      rw [if_pos rfl]
      cases keys with
      | nil =>
        intro k hk hgt
        rw [mem_singleton] at hk
        exact Vector.lt_irrefl k' (hk ▸ hgt)
      | cons k₂ keys =>
        refine ⟨by simp, hk' k₂ (by simp), ?_⟩
        intro k hk hgt hless
        rcases mem_cons.mp hk with rfl | hk
        . exact Vector.lt_irrefl k hgt
        rcases mem_cons.mp hk with rfl | hk
        . exact Vector.lt_irrefl k hless
        . exact Vector.lt_irrefl k (Vector.lt_trans hless ((pairwise_cons.mp hkeys).1 k hk))
    rw [if_neg heq]
    have hgt : key < k' := by
      by_contra hge
      exact heq (Vector.le_antisymm hge hlt)
    refine ⟨by simp, hgt, ?_⟩
    intro k hk _ hless
    rcases mem_cons.mp hk with rfl | hk
    . exact Vector.lt_irrefl k hless
    . exact Vector.lt_irrefl k (Vector.lt_trans hless (hk' k hk))

end OrderedLedgerKeys

theorem perm_sortLedgerKeys (keys : List Hash256) : (sortLedgerKeys keys).Perm keys :=
  perm_insertionSort _ keys

theorem mem_sortLedgerKeys : key ∈ sortLedgerKeys keys ↔ key ∈ keys :=
  (perm_sortLedgerKeys keys).mem_iff

theorem pairwise_sortLedgerKeys (keys : List Hash256)
    : (sortLedgerKeys keys).Pairwise (fun a b => ¬ b < a) := by
  have : Std.Total (fun a b : Hash256 => (!decide (b < a)) = true) := by
    constructor
    intro a b
    simp only [Bool.not_eq_true', decide_eq_false_iff_not, Std.not_lt]
    exact Vector.le_total a b
  have : IsTrans Hash256 (fun a b => (!decide (b < a)) = true) := by
    constructor
    intro a b c hab hbc
    simp only [Bool.not_eq_true', decide_eq_false_iff_not, Std.not_lt] at *
    exact Vector.le_trans hab hbc
  have hsorted := pairwise_insertionSort (fun a b : Hash256 => (!decide (b < a)) = true) keys
  apply hsorted.imp
  intro a b h
  simpa using h

open Search in
theorem isNext_find_sortLedgerKeys (keys : List Hash256) (key : Hash256)
    : IsNext (· ∈ keys) key ((sortLedgerKeys keys).find? fun k => decide (key < k)) := by
  cases hfind : (sortLedgerKeys keys).find? fun k => decide (key < k) with
  | none =>
    intro k hk hlt
    have := find?_eq_none.mp hfind k (mem_sortLedgerKeys.mpr hk)
    exact this (decide_eq_true hlt)
  | some next =>
    obtain ⟨hgt, before, after, heq, hbefore⟩ := find?_eq_some_iff_append.mp hfind
    have hmem : next ∈ sortLedgerKeys keys := by simp [heq]
    refine ⟨mem_sortLedgerKeys.mp hmem, of_decide_eq_true hgt, ?_⟩
    intro k hk hlt hless
    have hk := mem_sortLedgerKeys.mpr hk
    rw [heq, mem_append, mem_cons] at hk
    have hsorted := pairwise_sortLedgerKeys keys
    rw [heq, pairwise_append, pairwise_cons] at hsorted
    rcases hk with hk | rfl | hk
    . have := hbefore k hk
      simp [hlt] at this
    . exact Vector.lt_irrefl k hless
    . exact hsorted.2.1.1 k hk hless

end State
