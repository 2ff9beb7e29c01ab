import Mathlib.Algebra.Order.Field.Rat
import Mathlib.Tactic.FieldSimp
import GoXrpl.Number.Lemmas.Total

namespace XRPLNumber

def value (n : XRPLNumber) : ℚ :=
  (if n.negative then -1 else 1) * n.mantissa * 10 ^ n.exponent

def externalValue (n : XRPLNumber) : ℚ :=
  n.externalMantissa.toInt * 10 ^ n.externalExponent

/--
The chains of operations on numbers of one scale. What `ParseXRPLNumber` reads from a string is a
sign, a magnitude and an exponent.
-/
inductive Expr : MantissaScale → Type where
  | number {scale : MantissaScale} (mantissa : Int64) (exponent : Int) (mode : RoundingMode)
      : Expr scale
  | parsed {scale : MantissaScale} (negative : Bool) (magnitude : UInt64) (exponent : Int)
      (mode : RoundingMode) : Expr scale
  | fromUint (mantissa : UInt64) (exponent : Int) : Expr .small
  | one {scale : MantissaScale} : Expr scale
  | zero {scale : MantissaScale} : Expr scale
  | add {scale : MantissaScale} (x y : Expr scale) (mode : RoundingMode) : Expr scale
  | sub {scale : MantissaScale} (x y : Expr scale) : Expr scale
  | mul {scale : MantissaScale} (x y : Expr scale) (mode : RoundingMode) : Expr scale
  | div {scale : MantissaScale} (x y : Expr scale) (mode : RoundingMode) : Expr scale
  | truncate {scale : MantissaScale} (x : Expr scale) : Expr scale
  | negate {scale : MantissaScale} (x : Expr scale) : Expr scale

def Expr.eval : {scale : MantissaScale} → Expr scale → Except Fault XRPLNumber
  | scale, .number mantissa exponent mode => newNumber mantissa exponent scale mode
  | scale, .parsed negative magnitude exponent mode =>
    normalizeFromBig negative magnitude.toNat exponent scale mode
  | _, .fromUint mantissa exponent => newXRPLNumberFromUint mantissa exponent
  | scale, .one => .ok (oneVal scale)
  | scale, .zero => .ok (XRPLNumber.zero scale)
  | _, .add x y mode => x.eval >>= fun n => y.eval >>= fun m => n.addRounded m mode
  | _, .sub x y => x.eval >>= fun n => y.eval >>= fun m => n.sub m
  | _, .mul x y mode => x.eval >>= fun n => y.eval >>= fun m => n.mulRounded m mode
  | _, .div x y mode => x.eval >>= fun n => y.eval >>= fun m => n.divRounded m mode
  | _, .truncate x => x.eval >>= fun n => n.truncate
  | _, .negate x => x.eval >>= fun n => .ok n.negate

structure Normal (scale : MantissaScale) (n : XRPLNumber) : Prop where
  scale_eq : n.scale = scale
  form : NormalForm scale n.toParts

def Results (scale : MantissaScale) (x : Except Fault XRPLNumber) : Prop :=
  ∀ n, x = .ok n → Normal scale n

section

variable {scale : MantissaScale} {n y : XRPLNumber}

namespace Results

theorem ok (h : Normal scale n) : Results scale (.ok n) := by
  intro r hr
  cases hr
  exact h

theorem bind {α : Type} {x : Except Fault α} {f : α → Except Fault XRPLNumber}
    (hf : ∀ a, x = .ok a → Results scale (f a))
    : Results scale (x >>= f) := by
  cases x with
  | error fault =>
    intro r hr
    cases hr
  | ok a => exact hf a rfl

theorem normalize {p : Parts} : Results scale (XRPLNumber.normalize ⟨p, scale⟩ mode) := by
  apply bind
  intro p' hp
  exact ok ⟨rfl, doNormalize_normalForm hp⟩

theorem normalizeFromBigDropped {negative dropped : Bool} {m : Nat}
    : Results scale (XRPLNumber.normalizeFromBigDropped negative m e scale mode dropped) := by
  apply bind
  intro p' hp
  exact ok ⟨rfl, doNormalize_normalForm hp⟩

end Results

theorem normal_zero
    : Normal scale (zero scale) := ⟨rfl, .inl rfl⟩

theorem normal_oneVal : Normal scale (oneVal scale) := by
  refine ⟨rfl, .inr ⟨Nat.le_refl _, ?_, ?_, ?_, ?_, ?_⟩⟩ <;> cases scale <;> decide

theorem Normal.negate (h : Normal scale n) : Normal scale n.negate := by
  unfold XRPLNumber.negate
  split
  . exact h
  rename_i hne
  refine ⟨h.scale_eq, .inr ?_⟩
  obtain ⟨hminM, hmaxM, hmin, hmax, htens, hspare⟩ :=
    h.form.resolve_left (fun hzero => hne (by rw [hzero]; rfl))
  exact ⟨hminM, hmaxM, hmin, hmax, htens, hspare⟩

theorem Normal.truncate (h : Normal scale n) : Results scale n.truncate := by
  unfold XRPLNumber.truncate
  split
  . exact .ok h
  rw [h.scale_eq]
  exact .normalizeFromBigDropped

section

variable (hn : Normal scale n) (hy : Normal scale y)

include hn hy

theorem Normal.addRoundedLegacy : Results scale (n.addRoundedLegacy y mode) := by
  unfold XRPLNumber.addRoundedLegacy
  rw [hn.scale_eq]
  split
  . exact .ok hn
  split
  . exact .ok hy
  split
  . exact .ok normal_zero
  . exact .bind fun _ _ => .normalize

theorem Normal.addRounded330 : Results scale (n.addRounded330 y mode) := by
  unfold XRPLNumber.addRounded330
  rw [hn.scale_eq]
  split
  . exact .ok hn
  split
  . exact .ok hy
  split
  . exact .ok normal_zero
  dsimp only
  split
  . exact .normalizeFromBigDropped
  . exact .bind fun _ _ => .normalizeFromBigDropped

theorem Normal.addRounded : Results scale (n.addRounded y mode) := by
  unfold XRPLNumber.addRounded
  split
  . exact hn.addRounded330 hy
  . exact hn.addRoundedLegacy hy

theorem Normal.addRounded_ne_diverge : n.addRounded y mode ≠ .error .diverge := by
  unfold XRPLNumber.addRounded
  split
  . exact addRounded330_ne_diverge hn.form hy.form
  . exact addRoundedLegacy_ne_diverge hn.form hy.form hn.scale_eq

theorem Normal.mulRounded : Results scale (n.mulRounded y mode) := by
  unfold XRPLNumber.mulRounded
  rw [hn.scale_eq]
  split
  . exact .ok hn
  split
  . exact .ok hy
  . exact .bind fun _ _ => .normalize

end

theorem Normal.divRounded (hn : Normal scale n) : Results scale (n.divRounded y mode) := by
  unfold XRPLNumber.divRounded
  rw [hn.scale_eq]
  split
  . intro r hr
    cases hr
  split
  . exact .ok hn
  . exact .normalizeFromBigDropped

structure Yields (scale : MantissaScale) (x : Except Fault XRPLNumber) : Prop where
  ends : x ≠ .error .diverge
  results : Results scale x

theorem Yields.bind {x : Except Fault XRPLNumber} {f : XRPLNumber → Except Fault XRPLNumber}
    (hx : Yields scale x) (hf : ∀ n, Normal scale n → Yields scale (f n))
    : Yields scale (x >>= f) where
  ends := bind_ne_diverge hx.ends fun n hn => (hf n (hx.results n hn)).ends
  results := .bind fun n hn => (hf n (hx.results n hn)).results

theorem Expr.yields (x : Expr scale) : Yields scale x.eval := by
  induction x with
  | number mantissa exponent mode => exact ⟨normalize_ne_diverge, .normalize⟩
  | parsed negative magnitude exponent mode =>
    exact ⟨normalizeFromBigDropped_ne_diverge, .normalizeFromBigDropped⟩
  | fromUint mantissa exponent => exact ⟨normalize_ne_diverge, .normalize⟩
  | one => exact ⟨by simp [Expr.eval], .ok normal_oneVal⟩
  | zero => exact ⟨by simp [Expr.eval], .ok normal_zero⟩
  | add x y mode ihx ihy =>
    refine ihx.bind fun n hn => ihy.bind fun m hm => ?_
    exact ⟨hn.addRounded_ne_diverge hm, hn.addRounded hm⟩
  | sub x y ihx ihy =>
    refine ihx.bind fun n hn => ihy.bind fun m hm => ?_
    exact ⟨hn.addRounded_ne_diverge hm.negate, hn.addRounded hm.negate⟩
  | mul x y mode ihx ihy =>
    refine ihx.bind fun n hn => ihy.bind fun m hm => ?_
    exact ⟨mulRounded_ne_diverge, hn.mulRounded hm⟩
  | div x y mode ihx ihy =>
    refine ihx.bind fun n hn => ihy.bind fun m hm => ?_
    exact ⟨divRounded_ne_diverge, hn.divRounded⟩
  | truncate x ih => exact ih.bind fun n hn => ⟨truncate_ne_diverge, hn.truncate⟩
  | negate x ih => exact ih.bind fun n hn => ⟨by simp, .ok hn.negate⟩

theorem toInt_externalMantissa {m : Nat} {negative : Bool} (hm : m < 2 ^ 63)
    : (if negative then -Int64.ofNat m else Int64.ofNat m).toInt
        = (if negative then -1 else 1) * (m : Int) := by
  cases negative with
  | false => simp [Int64.toInt_ofNat_of_lt hm]
  | true =>
    simp only [if_true]
    rw [Int64.toInt_neg, Int64.toInt_ofNat_of_lt hm, Int.bmod_eq_of_le (by omega) (by omega)]
    omega

theorem NormalForm.externalValue_eq (h : NormalForm scale n.toParts)
    : n.externalValue = n.value := by
  unfold externalValue value externalMantissa externalExponent
  rcases h with hzero | hin
  . have hm : n.mantissa = 0 := by rw [hzero]; rfl
    rw [hm]
    simp
  have hmaxM : scale.maxM ≤ 9999999999999999999 := by cases scale <;> decide
  have hle := hin.le_maxM
  have hrep : maxRep = 9223372036854775807 := rfl
  by_cases hgt : n.mantissa > maxRep
  . have htens := hin.tens hgt
    obtain ⟨k, hk⟩ : ∃ k, n.mantissa = k * 10 := ⟨n.mantissa / 10, by omega⟩
    have hdiv : n.mantissa / 10 = k := by omega
    simp only [if_pos hgt, hdiv]
    rw [toInt_externalMantissa (by omega), zpow_add₀ (by norm_num), hk]
    cases n.negative <;> push_cast <;> simp <;> ring
  simp only [if_neg hgt]
  rw [toInt_externalMantissa (by omega)]
  cases n.negative <;> push_cast <;> simp

theorem Normal.normalize (h : Normal scale n)
    : n.normalize mode
        = if OverLimit scale n.toParts then .error (.panic "XRPLNumber::normalize overflow")
          else .ok n := by
  unfold XRPLNumber.normalize
  rw [h.scale_eq]
  rcases h.form with hzero | hin
  . rw [hzero]
    rcases n with ⟨p, s⟩
    cases h.scale_eq
    cases hzero
    rfl
  rw [hin.doNormalize]
  split
  . rfl
  rcases n with ⟨p, s⟩
  cases h.scale_eq
  rfl

theorem Normal.overLimit (h : Normal scale n) (hover : OverLimit scale n.toParts)
    : scale = .large320 ∨ scale = .large330 := by
  have hgt : n.mantissa > maxRep := by
    apply Nat.lt_of_le_of_lt _ hover.1
    split <;> decide
  rcases h.form with hzero | hin
  . rw [hzero] at hgt
    cases hgt
  cases scale with
  | small => exact absurd hover.2 (Int.ne_of_lt (hin.spare rfl hgt))
  | largeLegacy => exact absurd hover.2 (Int.ne_of_lt (hin.spare rfl hgt))
  | large320 => exact .inl rfl
  | large330 => exact .inr rfl

/--
Every chain of operations that does not panic ends in a number in normal form, which to normalize
again changes nothing unless it lies beyond the limit that normalization keeps to.
-/
theorem Expr.eval_normalForm (x : Expr scale)
    : x.eval ≠ .error .diverge ∧ ∀ n, x.eval = .ok n →
        n.scale = scale ∧ NormalForm scale n.toParts ∧ n.externalValue = n.value
        ∧ (∀ mode, n.normalize mode
          = if OverLimit scale n.toParts then .error (.panic "XRPLNumber::normalize overflow")
            else .ok n)
        ∧ (OverLimit scale n.toParts → scale = .large320 ∨ scale = .large330) := by
  refine ⟨x.yields.ends, ?_⟩
  intro n hn
  have h := x.yields.results n hn
  exact ⟨h.scale_eq, h.form, h.form.externalValue_eq, fun _ => h.normalize, h.overLimit⟩

end

namespace Sample

-- The quotient is half a unit above the largest signed mantissa and is rounded up.
def aboveLimit : Expr .large320 :=
  .div (.number 3689348814741910323 32768 .toNearest) (.number 4 (-1) .toNearest) .toNearest

def limit : XRPLNumber := ⟨⟨false, 9223372036854775810, 32768⟩, .large320⟩

theorem aboveLimit_overflows
    : aboveLimit.eval = .ok limit ∧ limit.normalize .toNearest ≠ .ok limit := by
  decide +kernel

def third : Expr .large330 :=
  .sub (.div (.number 10 0 .toNearest) (.number 3 0 .toNearest) .upward) (.number 3 0 .toNearest)

theorem third_normalForm
    : third.eval = .ok ⟨⟨false, 3333333333333333340, -19⟩, .large330⟩
      ∧ NormalForm .large330 ⟨false, 3333333333333333340, -19⟩ := by
  have heval : third.eval = .ok ⟨⟨false, 3333333333333333340, -19⟩, .large330⟩ := by
    decide +kernel
  exact ⟨heval, ((Expr.eval_normalForm third).2 _ heval).2.1⟩

end Sample

end XRPLNumber
