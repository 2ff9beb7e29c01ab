import GoXrpl.Amount.Impl.Round
import Mathlib.Tactic.Ring

/-!
This module contains when the products of whole units are exact: the checks before a multiplication
keep it below a machine word, and not below the largest signed one.
-/

open Int64 Nat

namespace Amount

open XRPLNumber

theorem toUInt64_cases (a : Int64)
    : 0 ≤ a.toInt ∧ (a.toUInt64.toNat : Int) = a.toInt ∧ a.toUInt64.toNat < 2 ^ 63
      ∨ a.toInt < 0 ∧ 2 ^ 63 ≤ a.toUInt64.toNat := by
  have hcast : a.toUInt64.toNat = a.toBitVec.toNat := rfl
  have hint : a.toInt = a.toBitVec.toInt := rfl
  rw [hcast, hint, BitVec.toInt_eq_toNat_cond]
  split
  . left
    omega
  right
  omega

theorem toInt_toInt64 (u : UInt64)
    : u.toInt64.toInt = if u.toNat < 2 ^ 63 then (u.toNat : Int) else u.toNat - 2 ^ 64 := by
  have hint : u.toInt64.toInt = u.toBitVec.toInt := rfl
  have hcast : u.toNat = u.toBitVec.toNat := rfl
  rw [hint, hcast, BitVec.toInt_eq_toNat_cond]
  split <;> split <;> omega

variable {m M : UInt64}

theorem toNat_high_mul (hm : m.toNat < 2 ^ 32)
    : (M >>> 32 * m).toNat = M.toNat / 2 ^ 32 * m.toNat := by
  have hM := M.toNat_lt
  have hshift : (M >>> 32).toNat = M.toNat / 2 ^ 32 := by
    rw [UInt64.toNat_shiftRight]
    exact shiftRight_eq_div_pow _ _
  rw [UInt64.toNat_mul, hshift]
  apply mod_eq_of_lt
  have hhigh : M.toNat / 2 ^ 32 < 2 ^ 32 := by omega
  calc M.toNat / 2 ^ 32 * m.toNat
    _ < 2 ^ 32 * 2 ^ 32 := mul_lt_mul'' hhigh hm
    _ = 2 ^ 64 := rfl

-- A high half of the larger factor that is not zero keeps the smaller factor small.
theorem toNat_mul_of_checks (hm : m.toNat ≤ 3037000499)
    (hhigh : M.toNat / 2 ^ 32 * m.toNat ≤ 2147483648)
    : (m * M).toNat = m.toNat * M.toNat := by
  rw [UInt64.toNat_mul]
  apply mod_eq_of_lt
  generalize hh : M.toNat / 2 ^ 32 = high at hhigh
  have hM : M.toNat ≤ high * 2 ^ 32 + (2 ^ 32 - 1) := by omega
  have hbound : m.toNat * M.toNat ≤ high * m.toNat * 2 ^ 32 + m.toNat * (2 ^ 32 - 1) := by
    calc m.toNat * M.toNat
      _ ≤ m.toNat * (high * 2 ^ 32 + (2 ^ 32 - 1)) := mul_le_mul_left _ hM
      _ = high * m.toNat * 2 ^ 32 + m.toNat * (2 ^ 32 - 1) := by ring
  cases high with
  | zero => omega
  | succ high =>
    have hsmall : m.toNat ≤ (high + 1) * m.toNat := Nat.le_mul_of_pos_left _ (Nat.succ_pos high)
    omega

theorem checks_iff (m M low high : UInt64) (hlow : low.toNat < 2 ^ 32)
    : (m > low ∨ M >>> 32 * m > high)
        ↔ low.toNat < m.toNat ∨ high.toNat < M.toNat / 2 ^ 32 * m.toNat := by
  change low < m ∨ high < _ ↔ _
  rw [UInt64.lt_iff_toNat_lt, UInt64.lt_iff_toNat_lt]
  by_cases hm : m.toNat < 2 ^ 32
  . rw [toNat_high_mul hm]
  have hlarge : low.toNat < m.toNat := by omega
  simp only [hlarge, true_or]

theorem guardNativeDrops_bind
    : (do guardNativeDrops value; return value)
        = if value.toInt ≤ 10 ^ 17 then Except.ok value
          else .error (.panic "Native currency amount out of range") := by
  unfold guardNativeDrops
  by_cases h : value > maxNativeDrops
  . have hint : ¬ value.toInt ≤ 10 ^ 17 := Int.not_le.mpr (lt_iff_toInt_lt.mp h)
    rw [if_pos h, if_neg hint]
    rfl
  have hint : value.toInt ≤ 10 ^ 17 := Int.not_lt.mp fun hlt => h (lt_iff_toInt_lt.mpr hlt)
  rw [if_neg h, if_pos hint]
  rfl

def Wraps (a b : Int) : Prop :=
  0 ≤ a ∧ 0 ≤ b ∧ min a b ≤ 3000000000 ∧ max a b / 2 ^ 32 * min a b ≤ 2095475792 ∧ 2 ^ 63 ≤ a * b

theorem ordered_exact_iff (hle : a.toInt ≤ b.toInt)
    : (∀ v, mulNativeNative.ordered a b = .ok v →
          v.toInt = a.toInt * b.toInt ∧ v.toInt.natAbs ≤ 10 ^ 17)
        ↔ ¬ Wraps a.toInt b.toInt := by
  have hchecks := checks_iff a.toUInt64 b.toUInt64 3000000000 2095475792 (by decide)
  unfold mulNativeNative.ordered
  dsimp only
  rw [guardNativeDrops_bind]
  rcases toUInt64_cases a with ⟨ha, hacast, -⟩ | ⟨ha, hahigh⟩
  . rcases toUInt64_cases b with ⟨hb, hbcast, -⟩ | ⟨hb, -⟩
    . have hwraps : Wraps a.toInt b.toInt ↔ a.toUInt64.toNat ≤ 3000000000
          ∧ b.toUInt64.toNat / 2 ^ 32 * a.toUInt64.toNat ≤ 2095475792
          ∧ 2 ^ 63 ≤ a.toUInt64.toNat * b.toUInt64.toNat := by
        unfold Wraps
        rw [min_eq_left hle, max_eq_right hle, ← hacast, ← hbcast]
        norm_cast
        simp
      rw [hwraps, ← hacast, ← hbcast]
      split
      . next hfails =>
        rw [hchecks] at hfails
        change 3000000000 < _ ∨ 2095475792 < _ at hfails
        simp only [reduceCtorEq, false_implies, implies_true, true_iff]
        omega
      . next hpasses =>
        rw [hchecks] at hpasses
        change ¬ (3000000000 < _ ∨ 2095475792 < _) at hpasses
        have hproduct : (a.toUInt64 * b.toUInt64).toNat = _ :=
          toNat_mul_of_checks (by omega) (by omega)
        have hlt := (a.toUInt64 * b.toUInt64).toNat_lt
        have hvalue := toInt_toInt64 (a.toUInt64 * b.toUInt64)
        rw [hproduct] at hlt hvalue
        norm_cast
        generalize a.toUInt64.toNat * b.toUInt64.toNat = product at *
        split
        . simp only [Except.ok.injEq, forall_eq']
          split at hvalue <;> omega
        simp only [reduceCtorEq, false_implies, implies_true, true_iff]
        split at hvalue <;> omega
    . omega
  rw [if_pos (hchecks.mpr (.inl (by change 3000000000 < _; omega)))]
  simp only [reduceCtorEq, false_implies, implies_true, true_iff]
  exact fun hwraps => absurd hwraps.1 (by omega)

theorem toInt64WithMode_of_external {n : XRPLNumber} {drops k : Nat} (hscale : n.scale = .small)
    (hmantissa : n.externalMantissa = ofNat drops) (hexponent : n.externalExponent = k)
    (hpos : 0 < drops) (hlt : drops < 2 ^ 63)
    : n.toInt64WithMode .toNearest = (scaleDrops k drops).map ofNat := by
  have hint := toInt_ofNat_of_lt hlt
  have hzero : ofNat drops ≠ 0 := by
    intro h
    rw [h] at hint
    change (0 : Int) = drops at hint
    omega
  have hneg : ¬ ofNat drops < 0 := by
    rw [lt_iff_toInt_lt, hint]
    exact Int.not_lt.mpr (Int.natCast_nonneg drops)
  have hoffset : (-(k : Int)).toNat = 0 := by omega
  unfold toInt64WithMode
  rw [hmantissa, hexponent]
  rw [if_neg hzero, hint, hscale, hoffset, Int.natAbs_natCast, Int.toNat_natCast,
    decide_eq_false hneg]
  dsimp only [shift]
  cases scaleDrops k drops with
  | error fault => rfl
  | ok drops => rfl

theorem toInt64WithMode_raw (u : UInt64)
    : (newXRPLNumberRawUnsigned u 0).toInt64WithMode .toNearest
        = if u.toNat ≤ maxRep then .ok (ofNat u.toNat)
          else if u.toNat / 10 ≤ maxRep / 10 then .ok (ofNat (u.toNat / 10 * 10))
          else .error (.panic "XRPLNumber::operator rep() overflow") := by
  have hrep : maxRep = 9223372036854775807 := rfl
  have hlt := u.toNat_lt
  by_cases hsmall : u.toNat ≤ maxRep
  . rw [if_pos hsmall]
    by_cases hpos : 0 < u.toNat
    . apply toInt64WithMode_of_external rfl (k := 0) _ _ hpos (by omega)
      . simp [externalMantissa, newXRPLNumberRawUnsigned, not_lt.mpr hsmall]
      . simp [externalExponent, newXRPLNumberRawUnsigned, not_lt.mpr hsmall]
    have hzero : u = 0 := by
      apply UInt64.toNat.inj
      change u.toNat = 0
      omega
    rw [hzero]
    rfl
  rw [if_neg hsmall]
  have hraw : (newXRPLNumberRawUnsigned u 0).toInt64WithMode .toNearest
      = (scaleDrops 1 (u.toNat / 10)).map ofNat := by
    apply toInt64WithMode_of_external rfl _ _ (by omega) (by omega)
    . simp [externalMantissa, newXRPLNumberRawUnsigned, Nat.lt_of_not_le hsmall]
    . simp [externalExponent, newXRPLNumberRawUnsigned, Nat.lt_of_not_le hsmall]
  rw [hraw]
  unfold scaleDrops scaleDrops
  split
  . next hover =>
    rw [if_neg (not_le.mpr hover)]
    rfl
  . next hover =>
    rw [if_pos (not_lt.mp hover)]
    rfl

theorem materializeMPTRound_ok
    (hlt : drops < 2 ^ 63) (h : number.toInt64WithMode mode = .ok (ofNat drops))
    : materializeMPTRound number mode = .ok (ofNat drops) := by
  have hmin : ofNat drops ≠ minValue := by
    intro heq
    have hint := toInt_ofNat_of_lt hlt
    rw [heq] at hint
    change (-9223372036854775808 : Int) = drops at hint
    omega
  unfold materializeMPTRound
  rw [h]
  exact if_neg hmin

theorem materializeMPTRound_exact_iff (u : UInt64)
    : (∀ v, materializeMPTRound (newXRPLNumberRawUnsigned u 0) .toNearest = .ok v →
          v.toInt = u.toNat)
        ↔ u.toNat ≠ 2 ^ 63 ∧ u.toNat ≠ 2 ^ 63 + 1 := by
  have hrep : maxRep = 9223372036854775807 := rfl
  have hraw := toInt64WithMode_raw u
  split at hraw
  . rw [materializeMPTRound_ok (by omega) hraw]
    simp only [Except.ok.injEq, forall_eq']
    rw [toInt_ofNat_of_lt (by omega)]
    omega
  split at hraw
  . rw [materializeMPTRound_ok (by omega) hraw]
    simp only [Except.ok.injEq, forall_eq']
    rw [toInt_ofNat_of_lt (by omega)]
    omega
  unfold materializeMPTRound
  rw [hraw]
  change (∀ v, Except.error _ = Except.ok v → _) ↔ _
  simp only [reduceCtorEq, false_implies, implies_true, true_iff]
  omega

theorem orderedMPT_exact_iff (hle : m.toNat ≤ M.toNat)
    : (∀ v, mulRoundMPTMPT.ordered m M = .ok v → v.toInt = (m.toNat * M.toNat : Nat))
        ↔ m.toNat * M.toNat ≠ 2 ^ 63 ∧ m.toNat * M.toNat ≠ 2 ^ 63 + 1 := by
  have hchecks := checks_iff m M 3037000499 2147483648 (by decide)
  change _ ↔ 3037000499 < _ ∨ 2147483648 < _ at hchecks
  unfold mulRoundMPTMPT.ordered
  rw [if_congr hchecks rfl rfl]
  split
  . next hfails =>
    -- A product this small passes both checks.
    have hlarge : 2 ^ 63 + 1 < m.toNat * M.toNat := by
      by_contra hsmall
      have hsquare := mul_le_mul_left m.toNat hle
      have hhigh : M.toNat / 2 ^ 32 * m.toNat * 2 ^ 32 ≤ m.toNat * M.toNat := by
        calc M.toNat / 2 ^ 32 * m.toNat * 2 ^ 32
          _ = m.toNat * (M.toNat / 2 ^ 32 * 2 ^ 32) := by ring
          _ ≤ m.toNat * M.toNat := mul_le_mul_left _ (div_mul_le_self _ _)
      rcases hfails with hfails | hfails
      . have := Nat.mul_le_mul hfails hfails
        omega
      . omega
    simp only [reduceCtorEq, false_implies, implies_true, true_iff]
    omega
  . next hpasses =>
    rw [← toNat_mul_of_checks (by omega) (by omega)]
    exact materializeMPTRound_exact_iff (m * M)

theorem mulRoundMPTMPT_exact_iff (a b : Int64)
    : (∀ v, mulRoundMPTMPT (some a) (some b) = .ok v → v.toInt = a.toInt * b.toInt)
        ↔ (0 ≤ a.toInt → 0 ≤ b.toInt →
          a.toInt * b.toInt ≠ 2 ^ 63 ∧ a.toInt * b.toInt ≠ 2 ^ 63 + 1) := by
  have hneg : ∀ c : Int64, c < 0 ↔ c.toInt < 0 := fun c => lt_iff_toInt_lt
  unfold mulRoundMPTMPT
  dsimp only
  split
  . next hnegative =>
    rw [hneg, hneg] at hnegative
    simp only [reduceCtorEq, false_implies, implies_true, true_iff]
    omega
  . next hnonneg =>
    rw [hneg, hneg, not_or, Int.not_lt, Int.not_lt] at hnonneg
    obtain ⟨-, ha, -⟩ := (toUInt64_cases a).resolve_right fun h => absurd h.1 (by omega)
    obtain ⟨-, hb, -⟩ := (toUInt64_cases b).resolve_right fun h => absurd h.1 (by omega)
    simp only [hnonneg.1, hnonneg.2, true_implies]
    rw [← ha, ← hb]
    split
    . next hgt =>
      have hiff := orderedMPT_exact_iff (le_of_lt (UInt64.lt_iff_toNat_lt.mp hgt))
      rw [mul_comm] at hiff
      exact_mod_cast hiff
    . next hle =>
      have hiff := orderedMPT_exact_iff (not_lt.mp fun h => hle (UInt64.lt_iff_toNat_lt.mpr h))
      exact_mod_cast hiff

/--
A product of drops is exact or refused unless it wraps around, and one of units of an MPT with two
exceptions.
-/
theorem products_exact_iff (a b : Int64)
    : ((∀ v, mulNativeNative a b = .ok v →
          v.toInt = a.toInt * b.toInt ∧ v.toInt.natAbs ≤ 10 ^ 17)
        ↔ ¬ Wraps a.toInt b.toInt)
      ∧ ((∀ v, mulRoundMPTMPT (some a) (some b) = .ok v → v.toInt = a.toInt * b.toInt)
        ↔ (0 ≤ a.toInt → 0 ≤ b.toInt →
          a.toInt * b.toInt ≠ 2 ^ 63 ∧ a.toInt * b.toInt ≠ 2 ^ 63 + 1)) := by
  refine ⟨?_, mulRoundMPTMPT_exact_iff a b⟩
  unfold mulNativeNative
  split
  . next hgt =>
    have hle : b.toInt ≤ a.toInt := Int.le_of_lt (Int64.lt_iff_toInt_lt.mp hgt)
    have hwraps : Wraps a.toInt b.toInt ↔ Wraps b.toInt a.toInt := by
      unfold Wraps
      rw [min_comm, max_comm, Int.mul_comm a.toInt b.toInt]
      exact and_left_comm
    rw [hwraps, Int.mul_comm]
    exact ordered_exact_iff hle
  . next hle =>
    apply ordered_exact_iff
    exact Int.not_lt.mp fun hlt => hle (Int64.lt_iff_toInt_lt.mpr hlt)

namespace Sample

theorem products_not_exact
    : mulNativeNative 3000000000 4294967295 = .ok (-5561842188709551616)
      ∧ mulRoundMPTMPT (some 2147483648) (some 4294967296) = .ok 9223372036854775800 :=
  ⟨rfl, rfl⟩

end Sample

end Amount
