import GoXrpl.Accounting.Sum
import GoXrpl.Assoc.Basic
import GoXrpl.Membudget.Impl.Pool
import Mathlib.Algebra.Group.Nat.Defs

open Membudget.Checked

namespace Membudget

open Accounting

open UInt64 (not_lt le_of_lt toNat_sub_of_le le_iff_toNat_le toNat_add lt_iff_toNat_lt)

theorem Checked.pure_bind (a : α) (f : α → Checked β)
    : (pure a >>= f) = f a := rfl

theorem sub_of_le (h : b ≤ a) : sub a b = pure (a - b) := by
  unfold sub
  rw [decide_eq_false (not_lt.mpr h)]
  rfl

def Account.left (a : Account) : UInt64 :=
  if a.minimum > a.used then a.minimum - a.used else 0

theorem Account.unused_eq (a : Account) : a.unused = pure a.left := by
  unfold unused left
  split
  . rename_i hlt
    exact sub_of_le (le_of_lt hlt)
  . rfl

theorem Account.toNat_left (a : Account) : a.left.toNat = a.minimum.toNat - a.used.toNat := by
  unfold left
  split
  . rename_i hlt
    exact toNat_sub_of_le _ _ (le_of_lt hlt)
  rename_i hge
  have hge := le_iff_toNat_le.mp (not_lt.mp hge)
  rw [UInt64.toNat_zero]
  omega

theorem moveUnused_eq {total : UInt64} (hold : old ≤ total)
    (hfits : total.toNat - old.toNat + new.toNat < 2 ^ 64)
    : ∃ v, moveUnused total old new = pure v ∧ v.toNat = total.toNat - old.toNat + new.toNat := by
  rw [le_iff_toNat_le] at hold
  unfold moveUnused
  split
  . rename_i hge
    have hle := le_iff_toNat_le.mp hge
    refine ⟨total + (new - old), ?_, ?_⟩
    . rw [sub_of_le hge]
      rfl
    . rw [toNat_add, toNat_sub_of_le _ _ hge, Nat.mod_eq_of_lt] <;> omega
  rename_i hlt
  have hlt := UInt64.not_le.mp hlt
  have hle := lt_iff_toNat_lt.mp hlt
  have hless : old - new ≤ total := by
    rw [le_iff_toNat_le, toNat_sub_of_le _ _ (le_of_lt hlt)]
    omega
  refine ⟨total - (old - new), ?_, ?_⟩
  . rw [sub_of_le (le_of_lt hlt), pure_bind, sub_of_le hless]
  rw [toNat_sub_of_le _ _ hless, toNat_sub_of_le _ _ (le_of_lt hlt)]
  omega

def Account.raise (a : Account) (bytes : UInt64) : Account :=
  { a with
    used := a.used + bytes
    peak := if a.used + bytes > a.peak then a.used + bytes else a.peak }

namespace Pool

variable {p : Pool}

structure Holds (p : Pool) (a : Account) : Prop where
  used : a.used.toNat ≤ a.maximum.toNat
  left : a.left.toNat ≤ p.unusedMinimum.toNat
  limit : p.used.toNat + p.unusedMinimum.toNat ≤ p.limit.toNat

def Admits (p : Pool) (a : Account) (bytes : UInt64) : Prop :=
  a.used.toNat + bytes.toNat ≤ a.maximum.toNat
    ∧ p.used.toNat + bytes.toNat + (p.unusedMinimum.toNat - a.left.toNat) ≤ p.limit.toNat

theorem canReserveLocked_eq (h : p.Holds a) (bytes : UInt64)
    : ∃ can, p.canReserveLocked a bytes = pure can ∧ (can = true ↔ p.Admits a bytes) := by
  obtain ⟨hused, hleft, hlimit⟩ := h
  have hroom : a.used ≤ a.maximum := le_iff_toNat_le.mpr hused
  have hfree : p.used ≤ p.limit := le_iff_toNat_le.mpr (by omega)
  have hown : a.left ≤ p.unusedMinimum := le_iff_toNat_le.mpr hleft
  have hother : p.unusedMinimum - a.left ≤ p.limit - p.used := by
    rw [le_iff_toNat_le, toNat_sub_of_le _ _ hown, toNat_sub_of_le _ _ hfree]
    omega
  unfold canReserveLocked Admits
  rw [if_neg (not_lt.mpr hroom), sub_of_le hroom, pure_bind]
  by_cases hbytes : bytes > a.maximum - a.used
  . rw [if_pos hbytes]
    have hbytes := lt_iff_toNat_lt.mp hbytes
    rw [toNat_sub_of_le _ _ hroom] at hbytes
    refine ⟨false, rfl, ?_⟩
    simp only [Bool.false_eq_true, false_iff]
    omega
  rw [if_neg hbytes, sub_of_le hfree, pure_bind]
  have hbytes := le_iff_toNat_le.mp (not_lt.mp hbytes)
  rw [toNat_sub_of_le _ _ hroom] at hbytes
  by_cases hbytes' : bytes > p.limit - p.used
  . rw [if_pos hbytes']
    have hbytes' := lt_iff_toNat_lt.mp hbytes'
    rw [toNat_sub_of_le _ _ hfree] at hbytes'
    refine ⟨false, rfl, ?_⟩
    simp only [Bool.false_eq_true, false_iff]
    omega
  rw [if_neg hbytes', Account.unused_eq, pure_bind, if_neg (not_lt.mpr hown),
    sub_of_le hown, pure_bind, pure_bind, if_pos hother, sub_of_le hother,
    pure_bind]
  refine ⟨_, rfl, ?_⟩
  rw [decide_eq_true_iff, le_iff_toNat_le, toNat_sub_of_le _ _ hother,
    toNat_sub_of_le _ _ hfree, toNat_sub_of_le _ _ hown]
  omega

def raise (p : Pool) (bytes unusedMinimum : UInt64) : Pool :=
  { p with
    used := p.used + bytes
    peak := if p.used + bytes > p.peak then p.used + bytes else p.peak
    unusedMinimum }

theorem adjustUsedLocked_eq (h : p.Holds a) (hadmits : p.Admits a bytes) (hne : bytes ≠ 0)
    : ∃ u, p.adjustUsedLocked a bytes = pure (p.raise bytes u, a.raise bytes)
      ∧ (a.used + bytes).toNat = a.used.toNat + bytes.toNat
      ∧ (p.used + bytes).toNat = p.used.toNat + bytes.toNat
      ∧ u.toNat = p.unusedMinimum.toNat - a.left.toNat
        + (a.minimum.toNat - (a.used.toNat + bytes.toNat)) := by
  obtain ⟨hroom, hfree⟩ := hadmits
  have hmax := a.maximum.toNat_lt
  have hlimit := p.limit.toNat_lt
  have hused : (a.used + bytes).toNat = a.used.toNat + bytes.toNat := by
    rw [toNat_add]
    exact Nat.mod_eq_of_lt (by omega)
  have hpool : (p.used + bytes).toNat = p.used.toNat + bytes.toNat := by
    rw [toNat_add]
    exact Nat.mod_eq_of_lt (by omega)
  have hleft' : (a.raise bytes).left.toNat = a.minimum.toNat - (a.used.toNat + bytes.toNat) := by
    rw [Account.toNat_left, Account.raise, hused]
  have hleft := a.toNat_left
  have hholds := h.limit
  have hown := h.left
  have hfits : p.unusedMinimum.toNat - a.left.toNat + (a.raise bytes).left.toNat < 2 ^ 64 := by
    rw [hleft']
    omega
  obtain ⟨u, hmove, hu⟩ := moveUnused_eq (le_iff_toNat_le.mpr hown) hfits
  refine ⟨u, ?_, hused, hpool, by rw [hu, hleft']⟩
  unfold adjustUsedLocked
  rw [if_neg hne, Account.unused_eq, pure_bind]
  dsimp only
  rw [Account.unused_eq, pure_bind]
  change (moveUnused p.unusedMinimum a.left (a.raise bytes).left >>= _) = _
  rw [hmove]
  rfl

theorem releaseUsedLocked_eq (h : p.Holds a) (hbytes : bytes ≤ a.used) (hused : a.used ≤ p.used)
    (hmin : a.minimum.toNat - (a.used.toNat - bytes.toNat) + (p.unusedMinimum.toNat - a.left.toNat)
      < 2 ^ 64)
    : ∃ u, p.releaseUsedLocked a bytes = pure (
        { p with used := p.used - bytes, unusedMinimum := u }, { a with used := a.used - bytes })
      ∧ (a.used - bytes).toNat = a.used.toNat - bytes.toNat
      ∧ (p.used - bytes).toNat = p.used.toNat - bytes.toNat
      ∧ u.toNat = p.unusedMinimum.toNat - a.left.toNat
        + (a.minimum.toNat - (a.used.toNat - bytes.toNat)) := by
  have hpool : bytes ≤ p.used := UInt64.le_trans hbytes hused
  have hused' := toNat_sub_of_le _ _ hbytes
  let a' : Account := { a with used := a.used - bytes }
  have hleft' : a'.left.toNat = a.minimum.toNat - (a.used.toNat - bytes.toNat) := by
    rw [Account.toNat_left, hused']
  have hfits : p.unusedMinimum.toNat - a.left.toNat + a'.left.toNat < 2 ^ 64 := by
    rw [hleft']
    omega
  obtain ⟨u, hmove, hu⟩ := moveUnused_eq (le_iff_toNat_le.mpr h.left) hfits
  refine ⟨u, ?_, hused', toNat_sub_of_le _ _ hpool, by rw [hu, hleft']⟩
  unfold releaseUsedLocked
  rw [Account.unused_eq, pure_bind, sub_of_le hbytes, pure_bind, sub_of_le hpool,
    pure_bind]
  dsimp only
  rw [Account.unused_eq, pure_bind]
  change (moveUnused p.unusedMinimum a.left a'.left >>= _) = _
  rw [hmove]
  rfl

structure Inv (p : Pool) : Prop where
  used_eq : p.used.toNat = sum (fun _ a => a.used.toNat) p.accounts
  unused_eq : p.unusedMinimum.toNat = sum (fun _ a => a.minimum.toNat - a.used.toNat) p.accounts
  minimum_eq : p.minimum.toNat = sum (fun _ a => a.minimum.toNat) p.accounts
  limit : p.used.toNat + p.unusedMinimum.toNat ≤ p.limit.toNat
  minimum_le : p.minimum.toNat ≤ p.limit.toNat
  within : ∀ name a, p.accounts.lookup name = some a → a.used.toNat ≤ a.maximum.toNat
  ordered : ∀ name a, p.accounts.lookup name = some a → a.minimum.toNat ≤ a.maximum.toNat
  peak : p.used.toNat ≤ p.peak.toNat
  peaks : ∀ name a, p.accounts.lookup name = some a → a.used.toNat ≤ a.peak.toNat

theorem Inv.holds (h : p.Inv) (ha : p.accounts.lookup name = some a) : p.Holds a where
  used := h.within name a ha
  left := by
    rw [Account.toNat_left, h.unused_eq]
    exact le_sum (f := fun _ a => a.minimum.toNat - a.used.toNat) ha
  limit := h.limit

theorem Inv.used_le (h : p.Inv) (ha : p.accounts.lookup name = some a) : a.used ≤ p.used := by
  rw [le_iff_toNat_le, h.used_eq]
  exact le_sum (f := fun _ a => a.used.toNat) ha

theorem inv_new (limit : UInt64) : (Pool.new limit).Inv where
  used_eq := rfl
  unused_eq := rfl
  minimum_eq := rfl
  limit := Nat.zero_le _
  minimum_le := Nat.zero_le _
  within := fun _ _ ha => by cases ha
  ordered := fun _ _ ha => by cases ha
  peak := Nat.le_refl _
  peaks := fun _ _ ha => by cases ha

theorem Inv.set {p' : Pool} (h : p.Inv) (ha : p.accounts.lookup name = some a)
    (haccounts : p'.accounts = p.accounts.insert name a') (hlimit : p'.limit = p.limit)
    (hminimum : p'.minimum = p.minimum) (hmin : a'.minimum = a.minimum)
    (hmax : a'.maximum = a.maximum)
    (hused : p'.used.toNat + a.used.toNat = p.used.toNat + a'.used.toNat)
    (hunused : p'.unusedMinimum.toNat + (a.minimum.toNat - a.used.toNat)
      = p.unusedMinimum.toNat + (a'.minimum.toNat - a'.used.toNat))
    (hbound : p'.used.toNat + p'.unusedMinimum.toNat ≤ p.limit.toNat)
    (hwithin : a'.used.toNat ≤ a'.maximum.toNat) (hpeak : p'.used.toNat ≤ p'.peak.toNat)
    (hpeak' : a'.used.toNat ≤ a'.peak.toNat)
    : p'.Inv := by
  have hsum : ∀ f : String → Account → Nat,
      sum f p'.accounts + f name a = sum f p.accounts + f name a' := by
    intro f
    rw [haccounts]
    exact sum_change ha
  have hlookup : ∀ name' b, p'.accounts.lookup name' = some b →
      b = a' ∨ p.accounts.lookup name' = some b := by
    intro name' b hb
    rw [haccounts] at hb
    exact (Assoc.lookup_insert_cases hb).imp_left And.right
  have h₁ := hsum fun _ a => a.used.toNat
  have h₂ := hsum fun _ a => a.minimum.toNat - a.used.toNat
  have h₃ := hsum fun _ a => a.minimum.toNat
  have hu := h.used_eq
  have hun := h.unused_eq
  have hm := h.minimum_eq
  exact {
    used_eq := by omega
    unused_eq := by omega
    minimum_eq := by
      rw [hmin] at h₃
      rw [hminimum]
      omega
    limit := by
      rw [hlimit]
      exact hbound
    minimum_le := by
      rw [hminimum, hlimit]
      exact h.minimum_le
    within := by
      intro name' b hb
      rcases hlookup name' b hb with rfl | hb
      . exact hwithin
      . exact h.within name' b hb
    ordered := by
      intro name' b hb
      rcases hlookup name' b hb with rfl | hb
      . rw [hmin, hmax]
        exact h.ordered name a ha
      . exact h.ordered name' b hb
    peak := hpeak
    peaks := by
      intro name' b hb
      rcases hlookup name' b hb with rfl | hb
      . exact hpeak'
      . exact h.peaks name' b hb }

theorem le_peak (used peak : UInt64) : used.toNat ≤ (if used > peak then used else peak).toNat := by
  split
  . exact Nat.le_refl _
  rename_i hle
  exact le_iff_toNat_le.mp (not_lt.mp hle)

theorem Inv.adjust {accounts : AList fun _ : String => Account} (h : { p with accounts }.Inv)
    (ha : accounts.lookup name = some a) (hadmits : p.Admits a bytes) (hne : bytes ≠ 0)
    : ∃ u, p.adjustUsedLocked a bytes = pure (p.raise bytes u, a.raise bytes)
      ∧ { p.raise bytes u with accounts := accounts.insert name (a.raise bytes) }.Inv
      ∧ (a.used + bytes).toNat = a.used.toNat + bytes.toNat
      ∧ (p.used + bytes).toNat = p.used.toNat + bytes.toNat := by
  have hholds : p.Holds a := ⟨(h.holds ha).used, (h.holds ha).left, (h.holds ha).limit⟩
  obtain ⟨u, heq, hused, hpool, hu⟩ := adjustUsedLocked_eq hholds hadmits hne
  obtain ⟨hroom, hfree⟩ := hadmits
  have hleft := hholds.left
  have hlimit := hholds.limit
  rw [Account.toNat_left] at hu hleft hfree
  refine ⟨u, heq, ?_, hused, hpool⟩
  refine h.set ha rfl rfl rfl rfl rfl ?_ ?_ ?_ ?_ ?_ ?_
  . change (p.used + bytes).toNat + a.used.toNat = p.used.toNat + (a.used + bytes).toNat
    omega
  . change u.toNat + (a.minimum.toNat - a.used.toNat)
      = p.unusedMinimum.toNat + (a.minimum.toNat - (a.used + bytes).toNat)
    omega
  . change (p.used + bytes).toNat + u.toNat ≤ p.limit.toNat
    omega
  . change (a.used + bytes).toNat ≤ a.maximum.toNat
    omega
  . exact le_peak (p.used + bytes) p.peak
  . exact le_peak (a.used + bytes) a.peak

theorem Inv.releaseUsed (h : p.Inv) (ha : p.accounts.lookup name = some a) (hbytes : bytes ≤ a.used)
    : ∃ u, p.releaseUsedLocked a bytes = pure (
        { p with used := p.used - bytes, unusedMinimum := u }, { a with used := a.used - bytes })
      ∧ ({ p with used := p.used - bytes, unusedMinimum := u }.setAccount name
        { a with used := a.used - bytes }).Inv
      ∧ { p with used := p.used - bytes, unusedMinimum := u }.Admits
          { a with used := a.used - bytes } bytes := by
  have hholds := h.holds ha
  have hle := le_iff_toNat_le.mp hbytes
  have hused := h.used_le ha
  have hused' := le_iff_toNat_le.mp hused
  have hlimit := h.limit
  have hlimit' := p.limit.toNat_lt
  have hleft := hholds.left
  have hleft' := a.toNat_left
  have hfits : a.minimum.toNat - (a.used.toNat - bytes.toNat)
      + (p.unusedMinimum.toNat - a.left.toNat) < 2 ^ 64 := by
    omega
  obtain ⟨u, heq, haccount, hpool, hu⟩ := releaseUsedLocked_eq hholds hbytes hused hfits
  have hwithin := hholds.used
  refine ⟨u, heq, ?_, ?_, ?_⟩
  rotate_left
  . change (a.used - bytes).toNat + bytes.toNat ≤ a.maximum.toNat
    omega
  . rw [Account.toNat_left]
    change (p.used - bytes).toNat + bytes.toNat
      + (u.toNat - (a.minimum.toNat - (a.used - bytes).toNat)) ≤ p.limit.toNat
    omega
  refine h.set ha rfl rfl rfl rfl rfl ?_ ?_ ?_ ?_ ?_ ?_
  . change (p.used - bytes).toNat + a.used.toNat = p.used.toNat + (a.used - bytes).toNat
    omega
  . change u.toNat + (a.minimum.toNat - a.used.toNat)
      = p.unusedMinimum.toNat + (a.minimum.toNat - (a.used - bytes).toNat)
    omega
  . change (p.used - bytes).toNat + u.toNat ≤ p.limit.toNat
    omega
  . change (a.used - bytes).toNat ≤ a.maximum.toNat
    omega
  . change (p.used - bytes).toNat ≤ p.peak.toNat
    have hpeak := h.peak
    omega
  change (a.used - bytes).toNat ≤ a.peak.toNat
  have hpeak := h.peaks name a ha
  omega

theorem Inv.count {p' : Pool} (h : p.Inv) (ha : p.accounts.lookup name = some a)
    (haccounts : p'.accounts = p.accounts.insert name a')
    (hpool : (p'.limit, p'.used, p'.peak, p'.minimum, p'.unusedMinimum)
      = (p.limit, p.used, p.peak, p.minimum, p.unusedMinimum))
    (haccount : (a'.minimum, a'.maximum, a'.used, a'.peak) = (a.minimum, a.maximum, a.used, a.peak))
    : p'.Inv := by
  simp only [Prod.mk.injEq] at hpool haccount
  obtain ⟨hlimit, hused, hpeak, hminimum, hunused⟩ := hpool
  obtain ⟨hmin, hmax, hused', hpeak'⟩ := haccount
  have hlimit' := h.limit
  apply h.set ha haccounts hlimit hminimum hmin hmax
  . rw [hused, hused']
  . rw [hunused, hmin, hused']
  . rw [hused, hunused]
    exact hlimit'
  . rw [hused', hmax]
    exact h.within name a ha
  . rw [hused, hpeak]
    exact h.peak
  rw [hused', hpeak']
  exact h.peaks name a ha

end Pool

end Membudget
