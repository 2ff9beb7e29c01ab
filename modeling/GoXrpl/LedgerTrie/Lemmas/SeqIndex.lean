import Mathlib.Data.List.TakeWhile
import GoXrpl.LedgerTrie.Impl.Trie

open List AList

namespace LedgerTrie

structure SeqIndex (seqSupport : AList (fun _ : Nat => Nat)) (seqKeys : List Nat) (f : Nat → Nat)
    : Prop where
  lookup_eq : ∀ s, seqSupport.lookup s = if f s = 0 then none else some (f s)
  sorted : seqKeys.Pairwise (· < ·)
  mem_iff : ∀ s, s ∈ seqKeys ↔ f s ≠ 0

namespace Trie

theorem insertIdx_seqIndex (seqKeys : List Nat) (seq : Nat)
    : seqKeys.insertIdx (seqIndex seqKeys seq) seq =
        seqKeys.takeWhile (· < seq) ++ seq :: seqKeys.dropWhile (· < seq) := by
  induction seqKeys with
  | nil => simp [seqIndex]
  | cons k seqKeys ih =>
    by_cases hk : k < seq
    . simp only [seqIndex, hk, decide_true, takeWhile_cons_of_pos, length_cons,
        insertIdx_succ_cons, dropWhile_cons_of_pos, cons_append] at *
      rw [ih]
    . simp [seqIndex, hk]

theorem seqIndex_of_mem {seqKeys : List Nat} (hsorted : seqKeys.Pairwise (· < ·))
    (hmem : seq ∈ seqKeys)
    : seqKeys[seqIndex seqKeys seq]? = some seq ∧
        seqKeys.eraseIdx (seqIndex seqKeys seq) = seqKeys.filter (· ≠ seq) := by
  induction seqKeys with
  | nil => contradiction
  | cons k seqKeys ih =>
    rw [pairwise_cons] at hsorted
    by_cases hk : k < seq
    . have hne : k ≠ seq := by omega
      have hmem : seq ∈ seqKeys := by
        rw [mem_cons] at hmem
        exact hmem.resolve_left (Ne.symm hne)
      have ih := ih hsorted.2 hmem
      simp only [seqIndex, hk, decide_true, takeWhile_cons_of_pos, length_cons,
        getElem?_cons_succ, eraseIdx_cons_succ] at *
      rw [ih.2]
      simp [ih.1, hne]
    have hkeq : k = seq := by
      cases mem_cons.mp hmem with
      | inl h => exact h.symm
      | inr h =>
        have := hsorted.1 seq h
        omega
    subst hkeq
    simp only [seqIndex, hk, decide_false, Bool.false_eq_true, not_false_eq_true,
      takeWhile_cons_of_neg, length_nil, getElem?_cons_zero,
      eraseIdx_cons_zero, ne_eq, true_and]
    rw [filter_cons_of_neg (by simp)]
    apply Eq.symm
    rw [filter_eq_self]
    intro j hj
    have := hsorted.1 j hj
    simp only [decide_not, Bool.not_eq_true', decide_eq_false_iff_not]
    omega

end Trie

namespace SeqIndex

section

variable (h : SeqIndex seqSupport seqKeys f)

include h

theorem congr (hfg : ∀ s, g s = f s) : SeqIndex seqSupport seqKeys g := by
  have : g = f := funext hfg
  rwa [this]

theorem getD_lookup (s : Nat) : (seqSupport.lookup s).getD 0 = f s := by
  rw [h.lookup_eq]
  split
  . next hs => simp [hs]
  . rfl

theorem mem_keys_iff (s : Nat) : s ∈ seqSupport.keys ↔ f s ≠ 0 := by
  rw [← AList.mem_keys, ← AList.lookup_isSome, h.lookup_eq]
  split <;> simp_all

theorem length_eq : seqKeys.length = seqSupport.keys.length := by
  apply List.Perm.length_eq
  rw [perm_ext_iff_of_nodup]
  . intro s
    rw [h.mem_iff, h.mem_keys_iff]
  . exact h.sorted.imp Nat.ne_of_lt
  . exact seqSupport.keys_nodup

end

theorem seqSupportAdd {t : Trie} (h : SeqIndex t.seqSupport t.seqKeys f) {seq count : Nat}
    (hcount : 0 < count) (hfit : f seq + count ≤ maxUint32)
    : ∃ seqSupport seqKeys,
        t.seqSupportAdd seq count = .ok { t with seqSupport, seqKeys } ∧
          SeqIndex seqSupport seqKeys (fun s => f s + if s = seq then count else 0) := by
  have hlookup : ∀ s, (t.seqSupport.insert seq (f seq + count)).lookup s =
      if f s + (if s = seq then count else 0) = 0 then none
      else some (f s + if s = seq then count else 0) := by
    intro s
    by_cases hs : s = seq
    . rw [hs, lookup_insert]
      simp only [↓reduceIte]
      rw [if_neg (by omega)]
    rw [lookup_insert_ne hs, h.lookup_eq]
    simp [hs]
  unfold Trie.seqSupportAdd
  simp only [h.getD_lookup]
  rw [if_neg (by omega), add32_eq hfit]
  refine ⟨_, _, rfl, hlookup, ?_, ?_⟩
  . split
    . next hnone =>
      rw [Trie.insertIdx_seqIndex]
      have happend := takeWhile_append_dropWhile (p := fun k => decide (k < seq)) (l := t.seqKeys)
      have hsorted := h.sorted
      have hnotmem : seq ∉ t.seqKeys := by
        rw [h.mem_iff]
        rw [h.lookup_eq] at hnone
        split at hnone <;> simp_all
      rw [← happend, pairwise_append] at hsorted
      have hlt : ∀ k ∈ t.seqKeys.takeWhile (fun k => decide (k < seq)), k < seq := by
        intro k hk
        have := mem_takeWhile_imp hk
        simpa using this
      have hgt : ∀ k ∈ t.seqKeys.dropWhile (fun k => decide (k < seq)), seq < k := by
        intro k hk
        have hkmem : k ∈ t.seqKeys := (dropWhile_suffix _).mem hk
        have hne : k ≠ seq := fun heq => hnotmem (heq ▸ hkmem)
        -- The first key that is not below `seq` is above it, and so is every later one.
        cases hdrop : t.seqKeys.dropWhile (fun k => decide (k < seq)) with
        | nil =>
          rw [hdrop] at hk
          contradiction
        | cons k' rest =>
          have hhead := head_dropWhile_not (fun k => decide (k < seq))
            (w := by rw [hdrop]; simp)
          simp only [hdrop, head_cons, decide_eq_false_iff_not, Nat.not_lt] at hhead
          rw [hdrop, mem_cons] at hk
          rw [hdrop, pairwise_cons] at hsorted
          cases hk with
          | inl hk => omega
          | inr hk =>
            have := hsorted.2.1.1 k hk
            omega
      rw [pairwise_append, pairwise_cons]
      refine ⟨hsorted.1, ⟨hgt, hsorted.2.1⟩, ?_⟩
      intro a ha b hb
      cases mem_cons.mp hb with
      | inl hb =>
        rw [hb]
        exact hlt a ha
      | inr hb => exact hsorted.2.2 a ha b hb
    . exact h.sorted
  intro s
  have hmem := h.mem_iff s
  split
  . next hnone =>
    have happend := takeWhile_append_dropWhile (p := fun k => decide (k < seq)) (l := t.seqKeys)
    rw [Trie.insertIdx_seqIndex, mem_append, mem_cons]
    rw [← happend, mem_append] at hmem
    by_cases hs : s = seq
    . simp only [hs, true_or, or_true, ↓reduceIte, true_iff]
      omega
    simp only [hs, false_or, ↓reduceIte, Nat.add_zero]
    exact hmem
  . next hsome =>
    by_cases hs : s = seq
    . rw [h.lookup_eq] at hsome
      rw [hmem, hs]
      split at hsome
      . simp at hsome
      . next hne => omega
    simp only [hs, ↓reduceIte, Nat.add_zero]
    exact hmem

theorem seqSupportSub {t : Trie} (h : SeqIndex t.seqSupport t.seqKeys f) {seq count : Nat}
    (hpos : 0 < f seq) (hle : count ≤ f seq)
    : ∃ seqSupport seqKeys,
        t.seqSupportSub seq count = .ok { t with seqSupport, seqKeys } ∧
          SeqIndex seqSupport seqKeys (fun s => f s - if s = seq then count else 0) := by
  unfold Trie.seqSupportSub
  have hsome : t.seqSupport.lookup seq = some (f seq) := by
    rw [h.lookup_eq, if_neg (by omega)]
  simp only [hsome]
  rw [if_neg (by omega)]
  split
  . next hzero =>
    have hmem : seq ∈ t.seqKeys := by
      rw [h.mem_iff]
      omega
    obtain ⟨hget, herase⟩ := Trie.seqIndex_of_mem h.sorted hmem
    simp only [hget, ↓reduceIte, herase]
    refine ⟨_, _, rfl, ?_, ?_, ?_⟩
    . intro s
      by_cases hs : s = seq
      . rw [hs, lookup_erase]
        simp only [↓reduceIte, hzero]
      rw [lookup_erase_ne hs, h.lookup_eq]
      simp [hs]
    . exact h.sorted.sublist filter_sublist
    intro s
    rw [mem_filter, h.mem_iff]
    by_cases hs : s = seq
    . simp only [hs, ↓reduceIte, hzero]
      simp
    . simp [hs]
  . next hne =>
    refine ⟨_, _, rfl, ?_, h.sorted, ?_⟩
    . intro s
      by_cases hs : s = seq
      . rw [hs, lookup_insert]
        simp only [↓reduceIte, hne]
      rw [lookup_insert_ne hs, h.lookup_eq]
      simp [hs]
    intro s
    rw [h.mem_iff]
    by_cases hs : s = seq
    . simp only [hs, ↓reduceIte]
      omega
    . simp [hs]

end SeqIndex

end LedgerTrie
