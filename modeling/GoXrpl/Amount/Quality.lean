import GoXrpl.Amount.Impl.Quality
import GoXrpl.Number.Lemmas.Normalize

/-!
This module contains when a composed quality is the rounded product of the two rates.
-/

open Int64 IOUAmountValue

namespace XRPLNumber

theorem doNormalize_mul_ten (hpos : 0 < m) (hm : m < c.minM) (he : minExponent < e)
    : doNormalize c dropped ⟨negative, m, e⟩ = doNormalize c dropped ⟨negative, m * 10, e - 1⟩ := by
  have hfuel : (e - minExponent).toNat = (e - 1 - minExponent).toNat + 1 := by omega
  have hup : scaleUp c (e - minExponent).toNat m e
      = scaleUp c (e - 1 - minExponent).toNat (m * 10) (e - 1) := by
    rw [hfuel, scaleUp, if_pos hm]
  unfold doNormalize
  rw [if_neg (by dsimp only; omega), if_neg (by dsimp only; omega)]
  rw [hup]

theorem scaleDown_mul_pow (hm : m ≤ limit) (hlimit : limit < m * 10) (hj : j ≤ k)
    (he : e ≤ maxExponent) (hempty : g.empty = true)
    : ∃ g', g'.empty = true ∧ scaleDown limit k (m * 10 ^ j) (e - j) g = .ok (m, e, g') := by
  induction j generalizing k g with
  | zero =>
    refine ⟨g, hempty, ?_⟩
    rw [Nat.pow_zero, Nat.mul_one, scaleDown_of_le hm]
    simp
  | succ j ih =>
    obtain ⟨k, rfl⟩ : ∃ k', k = k' + 1 := ⟨k - 1, by omega⟩
    have hten : m * 10 ^ (j + 1) = m * 10 ^ j * 10 := by rw [Nat.pow_succ, Nat.mul_assoc]
    have hle : m ≤ m * 10 ^ j := Nat.le_mul_of_pos_right _ (Nat.pow_pos (by omega))
    obtain ⟨g', hg', heq⟩ := ih (k := k) (g := g.push 0) (by omega) (Guard.empty_push_zero hempty)
    refine ⟨g', hg', ?_⟩
    unfold scaleDown
    rw [if_pos (by omega), if_neg (by omega), hten, Nat.mul_div_cancel _ (by omega),
      Nat.mul_mod_left, ← heq]
    congr 1
    omega

def Sixteen (m : Nat) : Prop := 10 ^ 15 ≤ m ∧ m < 10 ^ 16

theorem Sixteen.doNormalize_small {j : Nat} (hm : Sixteen m) (hmin : minExponent ≤ e - j)
    (hmax : e ≤ maxExponent)
    : doNormalize (MantissaScale.small.context mode) false ⟨negative, m * 10 ^ j, e - j⟩
        = .ok ⟨negative, m, e⟩ := by
  have hrep : maxRep = 9223372036854775807 := rfl
  have hminM : (MantissaScale.small.context mode).minM = 10 ^ 15 := rfl
  have hmaxM : (MantissaScale.small.context mode).maxM = 10 ^ 16 - 1 := rfl
  have hlimit : m ≤ (MantissaScale.small.context mode).repLimit := by
    change m ≤ maxRep
    have := hm.2
    omega
  obtain ⟨hlow, hhigh⟩ := hm
  have hle : m ≤ m * 10 ^ j := Nat.le_mul_of_pos_right _ (Nat.pow_pos (by omega))
  have hdigits : j ≤ m * 10 ^ j := by
    calc j
      _ ≤ 10 ^ j := Nat.le_of_lt (Nat.lt_pow_self (by omega))
      _ ≤ m * 10 ^ j := Nat.le_mul_of_pos_left _ (by omega)
  have hmax16 : m ≤ (MantissaScale.small.context mode).maxM := by omega
  have hten : (MantissaScale.small.context mode).maxM < m * 10 := by omega
  obtain ⟨g', hg', hdown⟩ := scaleDown_mul_pow (g := { sbit := negative, xbit := false }) hmax16 hten
    hdigits hmax rfl
  unfold doNormalize
  rw [if_neg (by dsimp only; omega), scaleUp_of_le (Nat.le_trans hlow hle)]
  dsimp only
  rw [hdown]
  simp only [bind, Except.bind]
  rw [if_neg (by omega), scaleDown_of_le hlimit]
  simp only
  unfold maxDepth
  rw [doRoundUp_of_empty hg' (by dsimp only; omega)]
  unfold finishRoundUp
  rw [bringIntoRange_of_le (by change 10 ^ 15 ≤ m; omega) (by dsimp only; omega)]
  dsimp only
  rw [if_neg (by omega)]

variable {scale : MantissaScale}

theorem newNumber_ofNat (h : m < 2 ^ 63)
    : newNumber (ofNat m) e scale mode
        = (doNormalize (scale.context mode) false ⟨false, m, e⟩).map (⟨·, scale⟩) := by
  have hint := toInt_ofNat_of_lt h
  have hge : ofNat m ≥ 0 := by
    rw [ge_iff_le, le_iff_toInt_le, hint]
    exact Int.natCast_nonneg _
  unfold newNumber externalToInternal
  rw [if_pos hge, hint]
  dsimp only [Int.toNat_natCast]
  unfold normalize
  cases doNormalize (scale.context mode) false ⟨false, m, e⟩ <;> rfl

theorem Sixteen.newNumber_large (hm : Sixteen m) (hlarge : scale ≠ .small)
    (hmin : minExponent + 3 ≤ e) (hmax : e ≤ maxExponent)
    : newNumber (ofNat m) e scale mode = .ok ⟨⟨false, m * 1000, e - 3⟩, scale⟩ := by
  obtain ⟨hlow, hhigh⟩ := hm
  have hminM : (scale.context mode).minM = 10 ^ 18 := minM_of_ne_small hlarge
  have hin : InRange scale ⟨false, m * 1000, e - 3⟩ := by
    constructor
    . rw [minM_of_ne_small hlarge]
      dsimp only
      omega
    . rw [maxM_of_ne_small hlarge]
      dsimp only
      omega
    all_goals
      dsimp only
      omega
  have hover : ¬ OverLimit scale ⟨false, m * 1000, e - 3⟩ := by
    intro h
    have heq := h.2
    dsimp only at heq
    omega
  rw [newNumber_ofNat (by omega), doNormalize_mul_ten (by omega) (by omega) (by omega),
    doNormalize_mul_ten (by omega) (by omega) (by omega),
    doNormalize_mul_ten (by omega) (by omega) (by omega)]
  have hthousand : m * 10 * 10 * 10 = m * 1000 := by omega
  have hthree : e - 1 - 1 - 1 = e - 3 := by omega
  rw [hthousand, hthree, hin.doNormalize, if_neg hover]
  rfl

def issue (fault : Fault) (m : Nat) (e : Int) : Except Fault IOUAmountValue :=
  if e > 80 then .error fault else if e < -96 then .ok .zero else .ok ⟨Int64.ofNat m, e⟩

theorem Sixteen.clampIOU (hm : Sixteen m)
    : ∃ fault, clampIOU ⟨⟨false, m, e⟩, .small⟩ = issue fault m e := by
  have hrep : maxRep = 9223372036854775807 := rfl
  have hle : ¬ m > maxRep := by
    have := hm.2
    omega
  refine ⟨.panic "XRPLNumber→IOUAmountValue overflow", ?_⟩
  unfold XRPLNumber.clampIOU externalExponent externalMantissa
  simp only [if_neg hle]
  rfl

theorem Sixteen.toIOUAmountValueRounded (hm : Sixteen m)
    (hmin : minExponent + 3 ≤ e) (hmax : e ≤ maxExponent)
    : ∃ fault, (newNumber (ofNat m) e scale mode >>= (·.toIOUAmountValueRounded mode))
        = issue fault m e := by
  have hrep : maxRep = 9223372036854775807 := rfl
  have hhigh := hm.2
  have hpos : m ≠ 0 := by
    have := hm.1
    omega
  have hnumber : ∀ j : Nat, j ≤ 3 → m * 10 ^ j < 2 ^ 63 →
      newNumber (ofNat (m * 10 ^ j)) (e - j) .small mode = .ok ⟨⟨false, m, e⟩, .small⟩ := by
    intro j hthree hj
    rw [newNumber_ofNat hj, hm.doNormalize_small (by omega) hmax]
    rfl
  obtain ⟨fault, hclamp⟩ := hm.clampIOU (e := e)
  refine ⟨fault, ?_⟩
  rw [← hclamp]
  by_cases hsmall : scale = .small
  . have hkeep := hnumber 0 (by omega) (by omega)
    simp only [Nat.pow_zero, Nat.mul_one, Int.natCast_zero, Int.sub_zero] at hkeep
    rw [hsmall, hkeep]
    simp [bind, Except.bind, XRPLNumber.toIOUAmountValueRounded, isZero, hpos]
  have hzero : isZero ⟨⟨false, m * 1000, e - 3⟩, scale⟩ = false := by simp [isZero, hpos]
  rw [hm.newNumber_large hsmall hmin hmax]
  change XRPLNumber.toIOUAmountValueRounded _ mode = _
  unfold XRPLNumber.toIOUAmountValueRounded
  rw [hzero, if_neg Bool.false_ne_true, if_pos hsmall]
  unfold externalMantissa externalExponent
  -- the mantissa is read with two or three zeros at its end
  by_cases hlarge : m * 1000 > maxRep
  . have hten : m * 1000 / 10 = m * 10 ^ 2 := by omega
    have htwo : e - 3 + 1 = e - (2 : Nat) := by omega
    simp only [if_pos hlarge, Bool.false_eq_true, if_false]
    rw [hten, htwo, hnumber 2 (by omega) (by omega)]
    rfl
  have hthree : e - 3 = e - (3 : Nat) := by omega
  have hthousand : m * 1000 = m * 10 ^ 3 := by omega
  simp only [if_neg hlarge, Bool.false_eq_true, if_false]
  rw [hthousand, hthree, hnumber 3 (by omega) (by omega)]
  rfl

end XRPLNumber

namespace Quality

open XRPLNumber (Fault RoundingMode Sixteen issue)

section

variable (hm : Sixteen m)
include hm

theorem toInt_ofNat : (ofNat m).toInt = m := by
  have := hm.2
  exact toInt_ofNat_of_lt (by omega)

theorem ofNat_ne_zero : ofNat m ≠ 0 := by
  intro heq
  have hint := toInt_ofNat hm
  rw [heq] at hint
  have hlow := hm.1
  change (0 : Int) = m at hint
  omega

theorem ofNat_not_neg : ¬ ofNat m < 0 := by
  rw [lt_iff_toInt_lt, toInt_ofNat hm]
  exact Int.not_lt.mpr (Int.natCast_nonneg m)

theorem iouAmountValue_issue (ctx : NumberContext) (mode : RoundingMode)
    (hmin : -1000 ≤ e) (hmax : e ≤ 1000)
    : ∃ fault, ctx.iouAmountValue (ofNat m) e mode = issue fault m e := by
  have hint := toInt_ofNat hm
  have hneg := ofNat_not_neg hm
  obtain ⟨hlow, hhigh⟩ := hm
  have hge : ¬ ofNat m < minMantissa := by
    rw [lt_iff_toInt_lt, hint]
    change ¬ (m : Int) < 1000000000000000
    omega
  have hle : ¬ ofNat m > maxMantissa := by
    rw [gt_iff_lt, lt_iff_toInt_lt, hint]
    change ¬ (9999999999999999 : Int) < m
    omega
  unfold NumberContext.iouAmountValue
  rw [if_neg (ofNat_ne_zero ⟨hlow, hhigh⟩)]
  split
  . apply Sixteen.toIOUAmountValueRounded ⟨hlow, hhigh⟩
    . change (-32768 + 3 : Int) ≤ e
      omega
    change e ≤ (32768 : Int)
    omega
  have hup : ∀ k, scaleUp k (ofNat m) e = (ofNat m, e) := by
    intro k
    cases k with
    | zero => rfl
    | succ k => rw [scaleUp, if_neg hge]
  refine ⟨.panic "IOUAmount overflow", ?_⟩
  unfold normalizeLegacy
  simp only [if_neg hneg, hup]
  rw [scaleDown, if_neg hle]
  simp only [bind, Except.bind, hge, or_false]
  unfold issue
  change (if e < -96 then _ else if e > 80 then _ else _) = _
  split
  . rw [if_neg (by omega)]
    rfl
  . rfl

end

def product (m₁ m₂ : Nat) : Nat := (m₁ * m₂ + 99999999999999) / 100000000000000

theorem product_bounds (h₁ : Sixteen m₁) (h₂ : Sixteen m₂)
    : 10 ^ 16 ≤ product m₁ m₂ ∧ product m₁ m₂ ≤ 10 ^ 18 - 199 := by
  have hlow := Nat.mul_le_mul h₁.1 h₂.1
  have hhigh : m₁ * m₂ ≤ (10 ^ 16 - 1) * (10 ^ 16 - 1) :=
    Nat.mul_le_mul (Nat.le_pred_of_lt h₁.2) (Nat.le_pred_of_lt h₂.2)
  unfold product
  omega

theorem mulMantissas_eq (h₁ : Sixteen m₁) (h₂ : Sixteen m₂)
    : Amount.mulMantissas (ofNat m₁) (ofNat m₂) true = .ok (product m₁ m₂) := by
  have hbounds := product_bounds h₁ h₂
  have hquotient : ((m₁ : Int) * m₂ + (100000000000000 - 1)) / 100000000000000
      = (product m₁ m₂ : Nat) := by
    push_cast
    rfl
  unfold Amount.mulMantissas Amount.muldivRound
  rw [toInt_ofNat h₁, toInt_ofNat h₂]
  simp only [if_true]
  rw [hquotient, if_neg (by omega), Int.toNat_natCast]

-- The power of ten that a product is divided by to keep sixteen digits, rounded up
def dropped (p : Nat) : Int := if p ≤ 10 * 9999999999999999 then 1 else 2

def LosesDigit (p : Nat) : Prop := 10 ^ 17 ≤ p ∧ 1 ≤ p % 100 ∧ p % 100 ≤ 9

theorem roundings_eq (hlow : 10 ^ 16 ≤ p) (hhigh : p ≤ 10 ^ 18 - 199)
    : ∃ r c, Amount.canonicalizeRoundIOUOverflow p o = (r, o + dropped p)
        ∧ canonicalizeRound p o = (c, o + dropped p)
        ∧ Sixteen r ∧ Sixteen c ∧ (c = r ↔ ¬ LosesDigit p) := by
  have hgrow : grow 20 p o = (p, o) := by rw [grow, if_neg (by omega)]
  unfold Amount.canonicalizeRoundIOUOverflow canonicalizeRound LosesDigit Sixteen
  rw [if_pos (by omega), Amount.dropDigits, hgrow]
  dsimp only
  by_cases hshort : p ≤ 10 * 9999999999999999
  . have hdropped : dropped p = 1 := if_pos hshort
    rw [if_neg (by omega), shrink, if_pos (by omega), shrink, if_neg (by omega), hdropped]
    exact ⟨_, _, rfl, rfl, by omega, by omega, by omega⟩
  have hdropped : dropped p = 1 + 1 := if_neg hshort
  rw [if_pos (by omega), Amount.dropDigits, if_neg (by omega), shrink, if_pos (by omega), shrink,
    if_pos (by omega), shrink, if_neg (by omega), hdropped, ← add_assoc]
  exact ⟨_, _, rfl, rfl, by omega, by omega, by omega⟩

theorem finalizeRoundIOU_eq (ctx : NumberContext) (hr : Sixteen r) (hmin : -1000 ≤ o)
    (hmax : o ≤ 1000)
    : ∃ fault, Amount.finalizeRoundIOUWithNumberContext r o false true none ctx
        = if o > 80 then .error fault
          else if o < -96 then .ok ⟨minMantissa, -96⟩
          else .ok ⟨ofNat r, o⟩ := by
  obtain ⟨fault, hresult⟩ := iouAmountValue_issue hr ctx .toNearest hmin hmax
  obtain ⟨_, hleast⟩ := iouAmountValue_issue (m := 10 ^ 15) (e := -96) ⟨by omega, by omega⟩ ctx
    .toNearest (by omega) (by omega)
  refine ⟨fault, ?_⟩
  unfold Amount.finalizeRoundIOUWithNumberContext
  simp only [Bool.false_eq_true, if_false, Option.getD_none]
  rw [hresult]
  unfold issue
  split
  . rfl
  split
  . exact hleast
  simp only [bind, Except.bind, ofNat_ne_zero hr, and_false, if_false]
  rfl

theorem issued_operand (hm : Sixteen m) (e : Int)
    : (Amount.issued ⟨ofNat m, e⟩).isZero = false
      ∧ (Amount.issued ⟨ofNat m, e⟩).isNegative = false
      ∧ (Amount.issued ⟨ofNat m, e⟩).prepareMulDivOperand = .ok (ofNat m, e) := by
  refine ⟨beq_false_of_ne (ofNat_ne_zero hm), decide_eq_false (ofNat_not_neg hm), ?_⟩
  unfold Amount.prepareMulDivOperand Amount.mantissa
  simp only [if_neg (ofNat_not_neg hm)]
  rfl

theorem mulRound_eq (ctx : NumberContext) (h₁ : Sixteen m₁) (h₂ : Sixteen m₂)
    (hround : Amount.canonicalizeRoundIOUOverflow (product m₁ m₂) (e₁ + e₂ + 14) = (r, o))
    : Amount.mulRoundWithNumberContext (.issued ⟨ofNat m₁, e₁⟩) (.issued ⟨ofNat m₂, e₂⟩)
          ctx true
        = Amount.finalizeRoundIOUWithNumberContext r o false true none ctx := by
  obtain ⟨hzero₁, hneg₁, hprepare₁⟩ := issued_operand h₁ e₁
  obtain ⟨hzero₂, hneg₂, hprepare₂⟩ := issued_operand h₂ e₂
  unfold Amount.mulRoundWithNumberContext
  rw [hzero₁, hzero₂, hprepare₁, hprepare₂, hneg₁, hneg₂]
  simp only [Bool.or_self, Bool.false_eq_true, if_false, bind, Except.bind, bne_self_eq_false,
    Bool.false_bne, if_true]
  rw [mulMantissas_eq h₁ h₂]
  simp only [hround]

theorem mantissa_eq (q : Quality) : q.mantissa = q.value.toNat % 2 ^ 56 := by
  unfold mantissa
  rw [UInt64.toNat_and]
  exact Nat.and_two_pow_sub_one_eq_mod _ 56

theorem exponent_eq (q : Quality) : q.exponent = (q.value.toNat / 2 ^ 56 : Nat) - 100 := by
  unfold exponent
  rw [UInt64.toNat_shiftRight]
  congr 2
  exact Nat.shiftRight_eq_div_pow _ _

theorem mulRound_of_zero (h : (v₁.isZero || v₂.isZero) = true)
    : Amount.mulRoundWithNumberContext v₁ v₂ ctx true = .ok .zero := by
  unfold Amount.mulRoundWithNumberContext
  rw [if_pos h]
  rfl

theorem toNat_encode (hlow : 0 ≤ x) (hhigh : x ≤ 255) (hc : c < 2 ^ 56)
    : (UInt64.ofInt x <<< 56 ||| UInt64.ofNat c).toNat = x.toNat * 2 ^ 56 + c := by
  have hx : (UInt64.ofInt x).toNat = x.toNat := by
    unfold UInt64.ofInt
    rw [UInt64.toNat_ofNat_of_lt' (by change _ < 2 ^ 64; omega)]
    omega
  have hword : (UInt64.ofNat c).toNat = c := UInt64.toNat_ofNat_of_lt' (by change _ < 2 ^ 64; omega)
  have hshift : x.toNat <<< 56 % 2 ^ 64 = x.toNat <<< 56 := by
    rw [Nat.shiftLeft_eq]
    omega
  rw [UInt64.toNat_or, UInt64.toNat_shiftLeft, hx, hword]
  change x.toNat <<< 56 % 2 ^ 64 ||| c = _
  rw [hshift, ← Nat.shiftLeft_add_eq_or_of_lt hc, Nat.shiftLeft_eq]

variable {q₁ q₂ : Quality}

theorem exponent_bounds (q : Quality) : -100 ≤ q.exponent ∧ q.exponent ≤ 155 := by
  have hlt := q.value.toNat_lt
  rw [exponent_eq]
  omega

theorem value_ne_zero {q : Quality} (h : Sixteen q.mantissa) : q.value ≠ 0 := by
  intro heq
  have hlow := h.1
  rw [mantissa_eq, heq] at hlow
  change 10 ^ 15 ≤ 0 % 2 ^ 56 at hlow
  omega

theorem rate_eq_ok_iff {q : Quality} (h : Sixteen q.mantissa)
    : q.rate = .ok r ↔ q.exponent ≤ 80
        ∧ r = .issued (if q.exponent < -96 then .zero else ⟨ofNat q.mantissa, q.exponent⟩) := by
  have hbounds := exponent_bounds q
  obtain ⟨fault, hissue⟩ := iouAmountValue_issue h ⟨.small, false⟩ .toNearest (e := q.exponent)
    (by omega) (by omega)
  unfold rate Amount.newIssuedAmountFromValue
  rw [if_neg (value_ne_zero h), hissue]
  unfold issue
  split
  . next hlarge =>
    constructor
    . intro hok
      cases hok
    intro hok
    omega
  . next hle =>
    have hok : ∀ v : IOUAmountValue, (.issued <$> (Except.ok v : Except Fault IOUAmountValue)) = Except.ok r
        ↔ q.exponent ≤ 80 ∧ r = .issued v := by
      intro v
      change Except.ok (Amount.issued v) = _ ↔ _
      rw [Except.ok.injEq]
      exact ⟨fun h => ⟨by omega, h.symm⟩, fun h => h.2.symm⟩
    split
    . exact hok _
    . exact hok _

theorem compose_eq (h₁ : Sixteen q₁.mantissa) (h₂ : Sixteen q₂.mantissa)
    (hparts : q₁.composeParts q₂ = (c, o)) (hc : Sixteen c) (hlow : 1 ≤ o + 100) (hhigh : o + 100 ≤ 255)
    : (q₁.compose q₂).mantissa = c ∧ (q₁.compose q₂).exponent = o := by
  have hmantissa : ¬ (q₁.mantissa = 0 ∨ q₂.mantissa = 0) := by
    have := h₁.1
    have := h₂.1
    omega
  have hcompose : (q₁.compose q₂).value.toNat = (o + 100).toNat * 2 ^ 56 + c := by
    have hlt := hc.2
    unfold compose
    rw [if_neg (not_or.mpr ⟨value_ne_zero h₁, value_ne_zero h₂⟩), if_neg hmantissa, hparts]
    exact toNat_encode (by omega) hhigh (by omega)
  have hlt := hc.2
  rw [mantissa_eq, exponent_eq, hcompose]
  omega

def Encodes (q : Quality) (v : IOUAmountValue) : Prop :=
  (q.mantissa : Int) = v.mantissa.toInt ∧ q.exponent = v.exponent

def Issuable (e : Int) : Prop := -96 ≤ e ∧ e ≤ 80

def composedExponent (q₁ q₂ : Quality) : Int :=
  q₁.exponent + q₂.exponent + 14 + dropped (product q₁.mantissa q₂.mantissa)

/--
The composed quality is the rounded product of the two rates exactly when the rates and the product
can be issued and the last digits of the product are not those that only one rounding looks at.
-/
theorem compose_encodes_mulRound_iff (ctx : NumberContext)
    (h₁ : Sixteen q₁.mantissa) (h₂ : Sixteen q₂.mantissa)
    (hfits : 1 ≤ composedExponent q₁ q₂ + 100 ∧ composedExponent q₁ q₂ + 100 ≤ 255)
    : (∃ r₁ r₂ v, q₁.rate = .ok r₁ ∧ q₂.rate = .ok r₂
          ∧ Amount.mulRoundWithNumberContext r₁ r₂ ctx true = .ok v ∧ Encodes (q₁.compose q₂) v)
        ↔ Issuable q₁.exponent ∧ Issuable q₂.exponent ∧ Issuable (composedExponent q₁ q₂)
          ∧ ¬ LosesDigit (product q₁.mantissa q₂.mantissa) := by
  have hbounds := product_bounds h₁ h₂
  have hexp₁ := exponent_bounds q₁
  have hexp₂ := exponent_bounds q₂
  obtain ⟨r, c, hround, hshrink, hr, hc, hagree⟩ :=
    roundings_eq (o := q₁.exponent + q₂.exponent + 14) hbounds.1 hbounds.2
  change q₁.composeParts q₂ = (c, composedExponent q₁ q₂) at hshrink
  change _ = (r, composedExponent q₁ q₂) at hround
  generalize composedExponent q₁ q₂ = o at *
  obtain ⟨hmantissa, hexponent⟩ := compose_eq h₁ h₂ hshrink hc hfits.1 hfits.2
  obtain ⟨fault, hfinal⟩ := finalizeRoundIOU_eq ctx hr (o := o) (by omega) (by omega)
  rw [← mulRound_eq ctx h₁ h₂ hround] at hfinal
  rw [← hagree]
  simp only [rate_eq_ok_iff h₁, rate_eq_ok_iff h₂]
  unfold Issuable Encodes
  rw [hmantissa, hexponent]
  constructor
  . rintro ⟨r₁, r₂, v, ⟨hmax₁, rfl⟩, ⟨hmax₂, rfl⟩, hmul, hvm, hve⟩
    have hnonzero : v ≠ .zero := by
      rintro rfl
      have hlow := hc.1
      change (c : Int) = 0 at hvm
      omega
    have hmin₁ : ¬ q₁.exponent < -96 := by
      intro hlow
      rw [if_pos hlow, mulRound_of_zero (by rfl)] at hmul
      exact hnonzero (Except.ok.inj hmul).symm
    have hmin₂ : ¬ q₂.exponent < -96 := by
      intro hlow
      rw [if_pos hlow, mulRound_of_zero (Bool.or_true _)] at hmul
      exact hnonzero (Except.ok.inj hmul).symm
    rw [if_neg hmin₁, if_neg hmin₂, hfinal] at hmul
    split at hmul
    . cases hmul
    split at hmul
    . next hlow =>
      cases hmul
      change o = -96 at hve
      omega
    cases hmul
    rw [toInt_ofNat hr] at hvm
    exact ⟨by omega, by omega, by omega, by omega⟩
  rintro ⟨hin₁, hin₂, hin, hcr⟩
  rw [if_neg (by omega), if_neg (by omega)] at hfinal
  refine ⟨_, _, ⟨Int64.ofNat r, o⟩, ⟨hin₁.2, rfl⟩, ⟨hin₂.2, rfl⟩, ?_, ?_, rfl⟩
  . rw [if_neg (by omega), if_neg (by omega)]
    exact hfinal
  . rw [toInt_ofNat hr, hcr]

namespace Sample

def qualityOne : Quality := ⟨6125895493223874560⟩

theorem qualityOne_compose
    : Sixteen qualityOne.mantissa
      ∧ ∃ r₁ r₂ v, qualityOne.rate = .ok r₁ ∧ qualityOne.rate = .ok r₂
        ∧ Amount.mulRoundWithNumberContext r₁ r₂ ⟨.large330, true⟩ true = .ok v
        ∧ Encodes (qualityOne.compose qualityOne) v := by
  have hone : Sixteen qualityOne.mantissa := ⟨by decide, by decide⟩
  refine ⟨hone, (compose_encodes_mulRound_iff _ hone hone ⟨by decide, by decide⟩).mpr ?_⟩
  exact ⟨⟨by decide, by decide⟩, ⟨by decide, by decide⟩, ⟨by decide, by decide⟩,
    fun h => absurd h.1 (by decide)⟩

def first : Quality := ⟨6134895493153874561⟩

def second : Quality := ⟨6125895493230874560⟩

theorem compose_rounds_twice
    : (first.rate.bind fun r₁ => second.rate.bind fun r₂ =>
          Amount.mulRoundWithNumberContext r₁ r₂ ⟨.small, true⟩ true)
        = .ok ⟨1000000000000000, -14⟩
      ∧ (first.compose second).mantissa = 1000000000000001
      ∧ (first.compose second).exponent = -14 :=
  ⟨rfl, rfl, rfl⟩

end Sample

end Quality
