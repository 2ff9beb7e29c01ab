import Mathlib.Algebra.BigOperators.Finprod
import Mathlib.Data.List.AList
import Mathlib.Data.Finite.Prod

/-!
This module contains totals over a map whose keys are finitely many, and how a total changes when
some entries of the map are replaced.
-/

namespace Accounting

theorem finite_bytes (n : Nat) : Finite (Vector UInt8 n) := by
  have hbyte : Finite UInt8 := Finite.of_injective UInt8.toFin fun a b h => UInt8.toFin_inj.mp h
  apply Finite.of_injective fun (h : Vector UInt8 n) (i : Fin n) => h[i]
  intro a b hab
  apply Vector.ext
  intro i hi
  exact congrFun hab ⟨i, hi⟩

open List

variable {K V M : Type}

theorem finsum_transfer [Finite K] [DecidableEq K] {f g : K → Int} (to_ from_ : K) (gain loss : Int)
    (h : ∀ k, g k = f k + (if k = to_ then gain else 0) - (if k = from_ then loss else 0))
    : ∑ᶠ k, g k = ∑ᶠ k, f k + gain - loss := by
  have hone : ∀ (k₀ : K) (c : Int), ∑ᶠ k, (if k = k₀ then c else 0) = c := by
    intro k₀ c
    rw [finsum_eq_single _ k₀ (fun k hk => if_neg hk), if_pos rfl]
  rw [finsum_congr h, finsum_sub_distrib (Set.toFinite _) (Set.toFinite _),
    finsum_add_distrib (Set.toFinite _) (Set.toFinite _), hone, hone]

noncomputable def total [AddCommMonoid M] (amount : V → M) (m : K → Option V) : M :=
  ∑ᶠ k, (m k).elim 0 amount

theorem total_congr [AddCommMonoid M] {amount : V → M}
    (h : ∀ k, (m k).map amount = (m' k).map amount)
    : total amount m = total amount m' := by
  unfold total
  congr 1
  funext k
  have hk := h k
  cases hm : m k <;> cases hm' : m' k <;> simp_all

variable [DecidableEq K]

theorem finsum_lookup [AddCommMonoid M] (l : AList fun _ : K => V) (amount : K → V → M)
    : ∑ᶠ k, (l.lookup k).elim 0 (amount k) = (l.entries.map fun e => amount e.1 e.2).sum := by
  have hsupport : Function.support (fun k => (l.lookup k).elim 0 (amount k)) ⊆ ↑l.keys.toFinset := by
    intro k hk
    rw [coe_toFinset]
    apply AList.mem_keys.mp
    apply AList.lookup_isSome.mp
    cases hlookup : l.lookup k with
    | none => simp [hlookup] at hk
    | some v => rfl
  rw [finsum_eq_sum_of_support_subset _ hsupport, sum_toFinset _ l.keys_nodup]
  unfold AList.keys keys
  rw [map_map]
  congr 1
  apply map_congr_left
  intro e he
  have hlookup : l.lookup e.1 = some e.2 := AList.mem_lookup_iff.mpr he
  dsimp
  rw [hlookup]
  rfl

theorem total_add_changes [Finite K] [AddCommGroup M] {m m' : K → Option V}
    {W : Type} (changes : AList fun _ : K => W) (change : K → W → M)
    (h : ∀ k w, changes.lookup k = some w →
      (m' k).elim 0 amount = (m k).elim 0 amount + change k w)
    (hother : ∀ k, changes.lookup k = none → m' k = m k)
    : total amount m' = total amount m + (changes.entries.map fun e => change e.1 e.2).sum := by
  rw [← finsum_lookup]
  unfold total
  rw [← finsum_add_distrib (Set.toFinite _) (Set.toFinite _)]
  congr 1
  funext k
  cases hlookup : changes.lookup k with
  | none => simp [hother k hlookup]
  | some w => exact h k w hlookup

theorem sum_of_filterMap [AddCommMonoid M] {α β : Type} {pick : α → Option β} {net : β → Option M}
    {change : α → M} {l : List α} (hnets : (l.filterMap pick).mapM net = some nets)
    (hnone : ∀ a ∈ l, pick a = none → change a = 0)
    (hsome : ∀ a ∈ l, ∀ b v, pick a = some b → net b = some v → change a = v)
    : (l.map change).sum = nets.sum := by
  induction l generalizing nets with
  | nil =>
    cases hnets
    rfl
  | cons a l ih =>
    have hrest : ∀ {nets}, (l.filterMap pick).mapM net = some nets → (l.map change).sum = nets.sum :=
      fun hnets => ih hnets (fun a' ha' => hnone a' (mem_cons_of_mem _ ha'))
        (fun a' ha' => hsome a' (mem_cons_of_mem _ ha'))
    rw [map_cons, sum_cons]
    rw [filterMap_cons] at hnets
    cases hpick : pick a with
    | none =>
      rw [hpick] at hnets
      rw [hnone a mem_cons_self hpick, zero_add, hrest hnets]
    | some b =>
      simp only [hpick, mapM_cons, Option.bind_eq_bind, Option.bind_eq_some_iff] at hnets
      obtain ⟨v, hv, vs, hvs, hnets⟩ := hnets
      cases hnets
      rw [hsome a mem_cons_self b v hpick hv, hrest hvs, sum_cons]

end Accounting
