import Mathlib.Data.Nat.Bitwise
import Mathlib.Tactic.Ring
import GoXrpl.Number.Impl.XRPLNumber

open XRPLNumber.MantissaScale

namespace XRPLNumber
namespace Guard

variable {g : Guard}

theorem toNat_digits_push (d : Nat)
    : (g.push d).digits.toNat = g.digits.toNat / 16 + d % 16 * 16 ^ 15 := by
  have hlt := g.digits.toNat_lt
  have hlow : g.digits.toNat / 16 < 2 ^ 60 := by omega
  have hd : d % 16 % 2 ^ 64 = d % 16 := Nat.mod_eq_of_lt (by omega)
  have hhigh : d % 16 * 2 ^ 60 % 2 ^ 64 = d % 16 * 2 ^ 60 := Nat.mod_eq_of_lt (by omega)
  change ((g.digits >>> 4) ||| (UInt64.ofNat (d % 16) <<< 60)).toNat = _
  rw [UInt64.toNat_or, UInt64.toNat_shiftRight, UInt64.toNat_shiftLeft, UInt64.toNat_ofNat', hd]
  change g.digits.toNat >>> 4 ||| ((d % 16) <<< 60) % 2 ^ 64 = _
  rw [Nat.shiftLeft_eq, hhigh, Nat.shiftRight_eq_div_pow, ← Nat.shiftLeft_eq, Nat.or_comm,
    ← Nat.shiftLeft_add_eq_or_of_lt hlow, Nat.shiftLeft_eq, Nat.add_comm]
  rfl

theorem toNat_digits_pop : g.pop.2.digits.toNat = g.digits.toNat * 16 % 2 ^ 64 := by
  change (g.digits <<< 4).toNat = _
  rw [UInt64.toNat_shiftLeft]
  change g.digits.toNat <<< 4 % 2 ^ 64 = _
  rw [Nat.shiftLeft_eq]

theorem pop_eq : g.pop.1 = g.digits.toNat / 16 ^ 15 := by
  have hlt := g.digits.toNat_lt
  change ((g.digits &&& 0xF000000000000000) >>> 60).toNat = _
  rw [UInt64.toNat_shiftRight, UInt64.toNat_and]
  change (g.digits.toNat &&& 0xF000000000000000) >>> 60 = _
  rw [Nat.shiftRight_and_distrib, Nat.shiftRight_eq_div_pow]
  change g.digits.toNat / 2 ^ 60 &&& 15 = _
  rw [show (15 : Nat) = 2 ^ 4 - 1 from rfl, Nat.and_two_pow_sub_one_eq_mod]
  omega

theorem pop_lt : g.pop.1 < 16 := by
  have hlt := g.digits.toNat_lt
  rw [pop_eq]
  omega

def Decimal (g : Guard) : Prop :=
  ∀ i, g.digits.toNat / 16 ^ i % 16 < 10

theorem Decimal.of_zero (h : g.digits = 0) : g.Decimal := by
  intro i
  rw [h]
  simp

theorem Decimal.push (h : g.Decimal) (m : Nat) : (g.push (m % 10)).Decimal := by
  intro i
  have hlt := g.digits.toNat_lt
  have hd : m % 10 % 16 = m % 10 := Nat.mod_eq_of_lt (by omega)
  rw [toNat_digits_push, hd]
  by_cases hi : i < 15
  . have hsplit : (16 : Nat) ^ 15 = 16 * 16 ^ (14 - i) * 16 ^ i := by
      rw [← pow_succ', ← pow_add]
      congr 1
      omega
    have hnext := h (i + 1)
    rw [pow_succ', ← Nat.div_div_eq_div_mul] at hnext
    rw [hsplit, ← Nat.mul_assoc, Nat.add_mul_div_right _ _ (Nat.pow_pos (by omega)), Nat.mul_left_comm,
      Nat.add_mul_mod_self_left]
    exact hnext
  obtain ⟨j, rfl⟩ := Nat.exists_eq_add_of_le (Nat.le_of_not_lt hi)
  rw [pow_add, ← Nat.div_div_eq_div_mul, Nat.add_mul_div_right _ _ (Nat.pow_pos (by omega))]
  have hsmall : g.digits.toNat / 16 / 16 ^ 15 = 0 := by omega
  rw [hsmall, Nat.zero_add]
  have hle : m % 10 / 16 ^ j ≤ m % 10 := Nat.div_le_self _ _
  have hmod : m % 10 / 16 ^ j % 16 ≤ m % 10 / 16 ^ j := Nat.mod_le _ _
  omega

theorem Decimal.pop_lt (h : g.Decimal) : g.pop.1 < 10 := by
  have hlt := g.digits.toNat_lt
  have htop := h 15
  rw [pop_eq]
  omega

theorem Decimal.pop (h : g.Decimal) : g.pop.2.Decimal := by
  intro i
  rw [toNat_digits_pop]
  have hshift : g.digits.toNat * 16 % 2 ^ 64 = g.digits.toNat % 16 ^ 15 * 16 := by omega
  rw [hshift]
  cases i with
  | zero => simp
  | succ i =>
    rw [pow_succ' 16 i, ← Nat.div_div_eq_div_mul, Nat.mul_div_cancel _ (by omega)]
    by_cases hi : i < 15
    . have hsplit : (16 : Nat) ^ 15 = 16 ^ i * (16 ^ (14 - i) * 16) := by
        rw [← pow_succ, ← pow_add]
        congr 1
        omega
      rw [hsplit, Nat.mod_mul_right_div_self, Nat.mod_mul_left_mod]
      exact h i
    have hzero : g.digits.toNat % 16 ^ 15 / 16 ^ i = 0 := by
      apply Nat.div_eq_of_lt
      apply Nat.lt_of_lt_of_le (Nat.mod_lt _ (Nat.pow_pos (by omega)))
      exact Nat.pow_le_pow_right (by omega) (Nat.le_of_not_lt hi)
    rw [hzero]
    omega

theorem empty_iff : g.empty = true ↔ g.digits = 0 ∧ g.xbit = false := by
  unfold empty
  simp

theorem empty_push_zero (h : g.empty = true) : (g.push 0).empty = true := by
  rw [empty_iff] at h ⊢
  unfold push
  simp [h.1, h.2]

theorem round_of_empty (h : g.empty = true)
    : g.round mode fix = if fix = .rounding330 then .exact else .down := by
  unfold round
  by_cases hfix : fix = .rounding330
  . rw [if_pos ⟨hfix, h⟩, if_pos hfix]
  have hdigits : g.digits < 0x5000000000000000 := by
    rw [(empty_iff.mp h).1]
    decide
  have hnot : ¬ g.digits > 0x5000000000000000 := UInt64.lt_asymm hdigits
  rw [if_neg (fun hand => hfix hand.1), if_neg hfix]
  cases mode <;> simp [h, hdigits, hnot]

end Guard

variable {scale : MantissaScale} {g : Guard}

/--
A number in the range of its scale. Without one of the fixes a mantissa that needs one digit more
than a signed one has an exponent to spare.
-/
structure InRange (scale : MantissaScale) (p : Parts) : Prop where
  minM_le : scale.minM ≤ p.mantissa
  le_maxM : p.mantissa ≤ scale.maxM
  minExponent_le : minExponent ≤ p.exponent
  le_maxExponent : p.exponent ≤ maxExponent
  tens : p.mantissa > maxRep → p.mantissa % 10 = 0
  spare : scale.cuspRoundingFix = .disabled → p.mantissa > maxRep → p.exponent < maxExponent

theorem minM_of_ne_small (h : scale ≠ .small) : scale.minM = 1000000000000000000 := by
  cases scale <;> first | rfl | exact absurd rfl h

theorem maxM_of_ne_small (h : scale ≠ .small) : scale.maxM = 9999999999999999999 := by
  cases scale <;> first | rfl | exact absurd rfl h

def NormalForm (scale : MantissaScale) (p : Parts) : Prop :=
  p = .zero ∨ InRange scale p

structure Short (scale : MantissaScale) (p : Parts) : Prop where
  large : scale ≠ .small
  le : maxRep / 10 ≤ p.mantissa
  lt : p.mantissa < scale.minM
  minExponent_lt : minExponent < p.exponent
  above : scale.cuspRoundingFix = .disabled → p.mantissa > maxRep / 10 → p.exponent ≤ maxExponent

theorem bringIntoRange_of_le (hle : scale.minM ≤ p.mantissa) (he : minExponent ≤ p.exponent)
    : bringIntoRange (scale.context mode) p = p := by
  have hpos : 0 < scale.minM := by cases scale <;> decide
  have hin : ¬ (p.mantissa < (scale.context mode).minM
      ∧ ((scale.context mode).fix ≠ .rounding330 ∨ p.mantissa ≠ 0)) :=
    fun h => absurd h.1 (Nat.not_lt.mpr hle)
  unfold bringIntoRange
  simp only [if_neg hin]
  rw [if_neg]
  rintro (hlt | hzero)
  . omega
  . omega

theorem bringIntoRange_of_short (h : Short scale p)
    : bringIntoRange (scale.context mode) p
        = { p with mantissa := p.mantissa * 10, exponent := p.exponent - 1 } := by
  have hlow := h.le
  have hexp := h.minExponent_lt
  have hne : p.mantissa ≠ 0 := by
    unfold maxRep at hlow
    omega
  have hout : p.mantissa < (scale.context mode).minM
      ∧ ((scale.context mode).fix ≠ .rounding330 ∨ p.mantissa ≠ 0) :=
    ⟨h.lt, .inr hne⟩
  unfold bringIntoRange
  simp only [if_pos hout]
  rw [if_neg]
  rintro (hlt | hzero)
  . omega
  . omega

inductive Ready (scale : MantissaScale) (p : Parts) : Prop where
  | inside (minM_le : scale.minM ≤ p.mantissa) (le_maxM : p.mantissa ≤ scale.maxM)
      (minExponent_le : minExponent ≤ p.exponent) (tens : p.mantissa > maxRep → p.mantissa % 10 = 0)
      (spare : scale.cuspRoundingFix = .disabled → p.mantissa ≤ maxRep)
  | short (short : Short scale p)

theorem Ready.finishRoundUp (hready : Ready scale p)
    (h : finishRoundUp (scale.context mode) loc p = .ok p')
    : InRange scale p' := by
  unfold XRPLNumber.finishRoundUp at h
  cases hready with
  | inside minM_le le_maxM minExponent_le tens spare =>
    rw [bringIntoRange_of_le minM_le minExponent_le] at h
    simp only at h
    split at h
    . cases h
    cases h
    exact ⟨minM_le, le_maxM, minExponent_le, by omega, tens,
      fun hfix hlt => absurd (spare hfix) (by omega)⟩
  | short hshort =>
    rw [bringIntoRange_of_short hshort] at h
    obtain ⟨hlarge, hle, hlt, hexp, habove⟩ := hshort
    simp only at h
    split at h
    . cases h
    cases h
    have hminM := minM_of_ne_small hlarge
    have hmaxM := maxM_of_ne_small hlarge
    unfold maxRep at hle habove
    exact {
      minM_le := by dsimp only; omega
      le_maxM := by dsimp only; omega
      minExponent_le := by dsimp only; omega
      le_maxExponent := by dsimp only; omega
      tens := by dsimp only; omega
      spare := by
        intro hfix hgt
        have := habove hfix
        unfold maxRep at hgt
        dsimp only at hgt ⊢
        omega }

inductive Trimmed (scale : MantissaScale) (mode : RoundingMode) (p : Parts) : Prop where
  | inside (minM_le : scale.minM ≤ p.mantissa) (le_maxM : p.mantissa ≤ scale.maxM)
      (le_repLimit : p.mantissa ≤ (scale.context mode).repLimit)
      (minExponent_le : minExponent ≤ p.exponent)
  | short (short : Short scale p)
      (spare : scale.cuspRoundingFix = .disabled → p.exponent ≤ maxExponent)

section

variable (h : Short scale p) (hspare : scale.cuspRoundingFix = .disabled → p.exponent ≤ maxExponent)

include h hspare

theorem Short.succ : Ready scale { p with mantissa := p.mantissa + 1 } := by
  obtain ⟨hlarge, hle, hlt, hexp, _⟩ := h
  have hminM := minM_of_ne_small hlarge
  have hmaxM := maxM_of_ne_small hlarge
  by_cases hlast : p.mantissa + 1 = scale.minM
  . have hrep : maxRep = 9223372036854775807 := rfl
    refine .inside ?_ ?_ ?_ ?_ ?_ <;> dsimp only <;> omega
  . exact .short ⟨hlarge, Nat.le_succ_of_le hle, by dsimp only; omega, hexp, fun hfix _ => hspare hfix⟩

theorem Short.doRoundUp (hround : doRoundUp (scale.context mode) loc (depth + 1) g p = .ok p')
    : InRange scale p' := by
  have hlt := h.lt
  have hminM := minM_of_ne_small h.large
  have hmaxM := maxM_of_ne_small h.large
  have hsafe : p.mantissa < (scale.context mode).maxM ∧ p.mantissa < maxRep := by
    unfold maxRep
    change p.mantissa < scale.maxM ∧ _
    omega
  have hunsafe : ¬ (p.mantissa + 1 > (scale.context mode).maxM ∨ p.mantissa + 1 > maxRep) := by
    change ¬ (p.mantissa + 1 > scale.maxM ∨ _)
    omega
  have hbelow : ¬ ((scale.context mode).fix = .rounding330 ∧ p.mantissa > maxRep
      ∧ p.mantissa < maxRepUp) := by
    omega
  unfold XRPLNumber.doRoundUp at hround
  simp only [if_pos hsafe, if_neg hunsafe, if_neg hbelow, ite_self] at hround
  split at hround
  . exact (h.succ hspare).finishRoundUp hround
  . exact Ready.finishRoundUp (.short h) hround

end

theorem Trimmed.doRoundUp (h : Trimmed scale mode p)
    (hround : doRoundUp (scale.context mode) loc (depth + 2) g p = .ok p')
    : InRange scale p' := by
  cases h with
  | short hshort hspare => exact hshort.doRoundUp hspare hround
  | inside minM_le le_maxM le_repLimit minExponent_le =>
    have hrep : maxRep = 9223372036854775807 := rfl
    have hrepUp : maxRepUp = 9223372036854775810 := rfl
    have hmaxM : (scale.context mode).maxM = scale.maxM := rfl
    have hfix : (scale.context mode).fix = scale.cuspRoundingFix := rfl
    have hlimit : p.mantissa > maxRep → p.mantissa ≤ maxRepUp ∧ scale.cuspRoundingFix = .rounding330 := by
      intro hgt
      unfold Context.repLimit at le_repLimit
      split at le_repLimit
      . exact ⟨le_repLimit, by assumption⟩
      . omega
    have hsigned : scale.cuspRoundingFix = .disabled → p.mantissa ≤ maxRep := by
      intro hoff
      by_contra hgt
      have hon := (hlimit (Nat.lt_of_not_le hgt)).2
      rw [hoff] at hon
      cases hon
    have hlarge : scale.cuspRoundingFix ≠ .disabled ∨ p.mantissa > 9999999999999999 → scale ≠ .small := by
      rintro (hne | hgt) rfl
      . exact hne rfl
      . exact absurd le_maxM (Nat.not_le.mpr hgt)
    unfold XRPLNumber.doRoundUp at hround
    simp only [hmaxM, hfix] at hround
    split at hround
    . split at hround
      . rename_i hon
        have hminM := minM_of_ne_small (hlarge (.inl hon))
        have hmaxM := maxM_of_ne_small (hlarge (.inl hon))
        split at hround
        . refine Ready.finishRoundUp (.inside ?_ ?_ ?_ ?_ ?_) hround <;> dsimp only <;> omega
        split at hround
        . refine Ready.finishRoundUp (.inside ?_ ?_ ?_ ?_ fun hoff => absurd hoff hon) hround <;>
            dsimp only <;> omega
        refine Short.doRoundUp ⟨hlarge (.inl hon), ?_, ?_, ?_, ?_⟩ ?_ hround
        . dsimp only; omega
        . dsimp only; omega
        . dsimp only; omega
        . exact fun hoff => absurd hoff hon
        . exact fun hoff => absurd hoff hon
      rename_i hoff
      have hoff := not_not.mp hoff
      have hle := hsigned hoff
      split at hround
      . cases scale with
        | small =>
          simp only [minM, maxM] at *
          refine Ready.finishRoundUp (.inside ?_ ?_ ?_ ?_ ?_) hround <;>
            simp only [minM, maxM] <;> omega
        | largeLegacy =>
          simp only [minM, maxM] at *
          refine Ready.finishRoundUp (.short ⟨by simp, ?_, ?_, ?_, ?_⟩) hround <;>
            simp only [minM] <;> omega
        | large320 => cases hoff
        | large330 => cases hoff
      . refine Ready.finishRoundUp (.inside ?_ ?_ ?_ ?_ ?_) hround <;> dsimp only <;> omega
    split at hround
    . have hminM := minM_of_ne_small (hlarge (.inr (by omega)))
      refine Ready.finishRoundUp (.inside ?_ ?_ ?_ ?_ ?_) hround <;> dsimp only <;> omega
    rename_i hnot
    refine Ready.finishRoundUp (.inside minM_le le_maxM minExponent_le ?_ ?_) hround
    . intro hgt
      have hle := hlimit hgt
      have heq : p.mantissa = maxRepUp := by
        by_contra hne
        exact hnot ⟨hle.2, hgt, by omega⟩
      rw [heq]
      rfl
    . exact hsigned

theorem scaleDown_le (hm : m ≤ k) (h : scaleDown limit k m e g = .ok (m', e', g'))
    : m' ≤ limit := by
  induction k generalizing m e g with
  | zero =>
    cases h
    omega
  | succ k ih =>
    unfold scaleDown at h
    split at h
    . split at h
      . cases h
      . exact ih (by omega) h
    cases h
    omega

theorem Trimmed.of_scaleDown (hmin : scale.minM ≤ m) (hmax : m ≤ scale.maxM) (he : minExponent ≤ e)
    (h : scaleDown (scale.context mode).repLimit 1 m e g = .ok (m', e', g'))
    : Trimmed scale mode ⟨negative, m', e'⟩ := by
  unfold scaleDown scaleDown at h
  split at h
  . rename_i hgt
    split at h
    . cases h
    cases h
    have hrep : maxRep ≤ (scale.context mode).repLimit := by
      unfold Context.repLimit
      split <;> decide
    have hlarge : scale ≠ .small := by
      rintro rfl
      simp only [maxM, maxRep] at hmax hrep
      omega
    have hminM := minM_of_ne_small hlarge
    have hmaxM := maxM_of_ne_small hlarge
    refine .short ⟨hlarge, ?_, ?_, ?_, ?_⟩ ?_ <;> dsimp only <;> omega
  cases h
  exact .inside hmin hmax (by dsimp only; omega) he

theorem doNormalize_normalForm (h : doNormalize (scale.context mode) dropped p = .ok p')
    : NormalForm scale p' := by
  unfold doNormalize at h
  split at h
  . cases h
    exact .inl rfl
  simp only [bind, Except.bind, pure, Except.pure] at h
  split at h
  . cases h
  rename_i hdown
  split at h
  . cases h
    exact .inl rfl
  split at h
  . cases h
  rename_i hrange _ _ hlimit
  refine .inr (Trimmed.doRoundUp (.of_scaleDown ?_ ?_ ?_ hlimit) h)
  . change ¬ (_ ∨ _ < scale.minM) at hrange
    omega
  . exact scaleDown_le (Nat.le_refl _) hdown
  . omega

def OverLimit (scale : MantissaScale) (p : Parts) : Prop :=
  p.mantissa > (if scale = .large330 then maxRepUp else maxRep) ∧ p.exponent = maxExponent

theorem overLimit_iff
    : OverLimit scale p ↔ p.mantissa > (scale.context mode).repLimit ∧ p.exponent = maxExponent := by
  have hlimit : (scale.context mode).repLimit = if scale = .large330 then maxRepUp else maxRep := by
    cases scale <;> rfl
  rw [hlimit]
  rfl

theorem empty_pushOverflow (h : g.empty = true) (htens : m > maxRep → m % 10 = 0)
    : (g.pushOverflow m mode fix).empty = true := by
  unfold Guard.pushOverflow
  split
  . exact h
  rename_i hcusp
  have hrep : maxRep = 9223372036854775807 := rfl
  have hrepUp : maxRepUp = 9223372036854775810 := rfl
  have hfix : fix = .rounding330 := by
    by_contra hne
    exact hcusp (.inl hne)
  have heq : m = maxRep := by
    by_contra hne
    exact hcusp (by omega)
  rw [Guard.round_of_empty h, if_pos hfix, heq]
  exact Guard.empty_push_zero h

theorem doRoundUp_of_empty (hempty : g.empty = true)
    (htens : p.mantissa > maxRep → p.mantissa % 10 = 0)
    : doRoundUp (scale.context mode) loc (depth + 1) g p
        = finishRoundUp (scale.context mode) loc p := by
  have hrep : maxRep = 9223372036854775807 := rfl
  have hrepUp : maxRepUp = 9223372036854775810 := rfl
  unfold doRoundUp
  simp only [Guard.round_of_empty (empty_pushOverflow hempty htens)]
  rw [if_neg, if_neg]
  . omega
  . split <;> simp

theorem scaleUp_of_le (h : c.minM ≤ m) : scaleUp c k m e = (m, e) := by
  cases k with
  | zero => rfl
  | succ k =>
    unfold scaleUp
    rw [if_neg (Nat.not_lt.mpr h)]

theorem scaleDown_of_le (h : m ≤ limit) : scaleDown limit k m e g = .ok (m, e, g) := by
  cases k with
  | zero => rfl
  | succ k =>
    unfold scaleDown
    rw [if_neg (Nat.not_lt.mpr h)]

instance : Decidable (OverLimit scale p) := by
  unfold OverLimit
  infer_instance

theorem InRange.doNormalize (h : InRange scale p)
    : doNormalize (scale.context mode) false p
        = if OverLimit scale p then .error (.panic "XRPLNumber::normalize overflow")
          else .ok p := by
  obtain ⟨hminM, hmaxM, hmin, hmax, htens, _⟩ := h
  have hpos : 0 < scale.minM := by cases scale <;> decide
  have hin : ¬ (p.exponent < minExponent ∨ p.mantissa < (scale.context mode).minM) := by
    change ¬ (_ ∨ _ < scale.minM)
    omega
  have hempty : Guard.empty { sbit := p.negative, xbit := false } = true := rfl
  unfold XRPLNumber.doNormalize
  rw [if_neg (by omega), scaleUp_of_le hminM]
  dsimp only
  have hmaxC : p.mantissa ≤ (scale.context mode).maxM := hmaxM
  rw [scaleDown_of_le hmaxC]
  simp only [bind, Except.bind, if_neg hin]
  by_cases hle : p.mantissa ≤ (scale.context mode).repLimit
  . rw [scaleDown_of_le hle,
      if_neg (fun hover => absurd (overLimit_iff.mp hover).1 (Nat.not_lt.mpr hle))]
    simp only
    unfold maxDepth
    rw [doRoundUp_of_empty hempty htens]
    unfold finishRoundUp
    rw [bringIntoRange_of_le hminM hmin]
    simp only
    rw [if_neg (Int.not_lt.mpr hmax)]
  have hrep : maxRep ≤ (scale.context mode).repLimit := by
    unfold Context.repLimit
    split <;> decide
  have hrepEq : maxRep = 9223372036854775807 := rfl
  have hlarge : scale ≠ .small := by
    rintro rfl
    simp only [maxM] at hmaxM
    omega
  have hminM' := minM_of_ne_small hlarge
  have hmaxM' := maxM_of_ne_small hlarge
  have hdigit : p.mantissa % 10 = 0 := htens (by omega)
  unfold scaleDown scaleDown
  rw [if_pos (Nat.lt_of_not_le hle)]
  by_cases hlimit : p.exponent ≥ maxExponent
  . rw [if_pos hlimit, if_pos (overLimit_iff.mpr ⟨Nat.lt_of_not_le hle, by omega⟩)]
  rw [if_neg hlimit,
    if_neg (fun hover : OverLimit scale p => hlimit (Int.le_of_eq hover.2.symm)), hdigit]
  simp only
  unfold maxDepth
  rw [doRoundUp_of_empty (Guard.empty_push_zero hempty) (by dsimp only; omega)]
  have hshort : Short scale ⟨p.negative, p.mantissa / 10, p.exponent + 1⟩ := by
    refine ⟨hlarge, ?_, ?_, ?_, ?_⟩ <;> dsimp only <;> omega
  have hback : p.mantissa / 10 * 10 = p.mantissa := by omega
  have hexp : p.exponent + 1 - 1 = p.exponent := by omega
  unfold finishRoundUp
  rw [bringIntoRange_of_short hshort]
  simp only [hback, hexp]
  rw [if_neg (Int.not_lt.mpr hmax)]

end XRPLNumber
