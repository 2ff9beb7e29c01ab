import GoXrpl.Number.Lemmas.Normalize

open Nat

namespace XRPLNumber

variable {scale : MantissaScale}

theorem bind_ne_diverge {α β : Type} {x : Except Fault α} {f : α → Except Fault β}
    (hx : x ≠ .error .diverge) (hf : ∀ a, x = .ok a → f a ≠ .error .diverge)
    : (x >>= f) ≠ .error .diverge := by
  cases x with
  | error fault =>
    intro h
    cases h
    exact hx rfl
  | ok a => exact hf a rfl

variable {k : Nat} {n : XRPLNumber}

theorem finishRoundUp_ne_diverge : finishRoundUp c loc p ≠ .error .diverge := by
  unfold finishRoundUp
  dsimp only
  split <;> simp

theorem doRoundUp_ne_diverge
    (h : c.fix = .disabled ∨ p.mantissa / 10 < c.maxM ∧ p.mantissa / 10 < maxRep)
    : doRoundUp c loc (depth + 2) g p ≠ .error .diverge := by
  unfold doRoundUp
  dsimp only
  split
  . split
    . rename_i hon
      have hsafe := h.resolve_left hon
      split
      . exact finishRoundUp_ne_diverge
      split
      . exact finishRoundUp_ne_diverge
      -- The mantissa of the inner call is small enough to be incremented.
      unfold doRoundUp
      dsimp only
      rw [if_pos hon, if_pos hsafe]
      split
      . exact finishRoundUp_ne_diverge
      . split <;> exact finishRoundUp_ne_diverge
    . split <;> exact finishRoundUp_ne_diverge
  . split <;> exact finishRoundUp_ne_diverge

theorem doRoundUp_context_ne_diverge (h : scale ≠ .small → p.mantissa ≤ 9999999999999999999)
    : doRoundUp (scale.context mode) loc maxDepth g p ≠ .error .diverge := by
  apply doRoundUp_ne_diverge
  by_cases hsmall : scale = .small
  . rw [hsmall]
    exact .inl rfl
  have hmaxM := maxM_of_ne_small hsmall
  have hle := h hsmall
  have hrep : maxRep = 9223372036854775807 := rfl
  have hcontext : (scale.context mode).maxM = scale.maxM := rfl
  omega

theorem scaleDown_ne_diverge : scaleDown limit k m e g ≠ .error .diverge := by
  induction k generalizing m e g with
  | zero => simp [scaleDown]
  | succ k ih =>
    unfold scaleDown
    split
    . split
      . simp
      . exact ih
    . simp

theorem scaleDown_le_self (h : scaleDown limit k m e g = .ok (m', e', g')) : m' ≤ m := by
  induction k generalizing m e g with
  | zero =>
    cases h
    exact le_refl _
  | succ k ih =>
    unfold scaleDown at h
    split at h
    . split at h
      . cases h
      . exact le_trans (ih h) (div_le_self _ _)
    cases h
    exact le_refl _

theorem doNormalize_ne_diverge {dropped : Bool}
    : doNormalize (scale.context mode) dropped p ≠ .error .diverge := by
  unfold doNormalize
  split
  . simp
  apply bind_ne_diverge scaleDown_ne_diverge
  intro a hdown
  dsimp only
  split
  . simp [pure, Except.pure]
  apply bind_ne_diverge scaleDown_ne_diverge
  intro b hlimit
  apply doRoundUp_context_ne_diverge
  intro hlarge
  have hle := le_trans (scaleDown_le_self hlimit) (scaleDown_le (le_refl _) hdown)
  have hmaxM := maxM_of_ne_small hlarge
  have hcontext : (scale.context mode).maxM = scale.maxM := rfl
  dsimp only
  omega

theorem normalizeFromBigDropped_ne_diverge {negative dropped : Bool}
    : normalizeFromBigDropped negative m e scale mode dropped ≠ .error .diverge := by
  apply bind_ne_diverge doNormalize_ne_diverge
  simp [pure, Except.pure]

theorem normalize_ne_diverge : n.normalize mode ≠ .error .diverge := by
  apply bind_ne_diverge doNormalize_ne_diverge
  simp [pure, Except.pure]

theorem shrinkProduct_le (hm : m ≤ k) : (shrinkProduct c k m e g).1 ≤ c.maxM := by
  induction k generalizing m e g with
  | zero =>
    unfold shrinkProduct
    omega
  | succ k ih =>
    unfold shrinkProduct
    split
    . exact ih (by omega)
    dsimp only
    omega

theorem mulRounded_ne_diverge : n.mulRounded y mode ≠ .error .diverge := by
  unfold mulRounded
  split
  . simp
  split
  . simp
  apply bind_ne_diverge
  . apply doRoundUp_context_ne_diverge
    intro hlarge
    have hle := shrinkProduct_le (g := { sbit := n.negative != y.negative })
      (c := n.scale.context mode) (e := n.exponent + y.exponent)
      (le_refl (n.mantissa * y.mantissa))
    rw [← maxM_of_ne_small hlarge]
    exact hle
  intro p _
  exact normalize_ne_diverge

theorem divRounded_ne_diverge : n.divRounded y mode ≠ .error .diverge := by
  unfold divRounded
  split
  . simp
  split
  . simp
  . exact normalizeFromBigDropped_ne_diverge

theorem truncate_ne_diverge : n.truncate ≠ .error .diverge := by
  unfold truncate
  split
  . simp
  . exact normalizeFromBigDropped_ne_diverge

theorem shift_eq (k m : Nat) (g : Guard) : (shift k m g).1 = m / 10 ^ k := by
  induction k generalizing m g with
  | zero => simp [shift]
  | succ k ih =>
    unfold shift
    rw [ih, Nat.div_div_eq_div_mul, pow_succ']

theorem shift_decimal (h : g.Decimal) : (shift k m g).2.Decimal := by
  induction k generalizing m g with
  | zero => exact h
  | succ k ih =>
    exact ih (h.push m)

theorem popLegacy_of_zero (k fuel : Nat) (hdigits : g.digits = 0) (hm : maxRep / 10 < m * 10 ^ k)
    : popLegacy minM (fuel + k + 1) m e g ≠ .error .diverge := by
  induction k generalizing m e g with
  | zero =>
    unfold popLegacy
    rw [if_neg (by omega)]
    simp
  | succ k ih =>
    have hrep : maxRep = 9223372036854775807 := rfl
    unfold popLegacy
    split
    . rename_i hlow
      have hpop : g.pop.1 = 0 := by
        rw [Guard.pop_eq, hdigits]
        rfl
      have hnext : (m * 10 + 2 ^ 64 - g.pop.1) % 2 ^ 64 = m * 10 := by omega
      dsimp only
      rw [hnext]
      apply ih
      . change g.digits <<< 4 = 0
        rw [hdigits]
        rfl
      rw [mul_assoc, ← pow_succ']
      exact hm
    . simp

theorem popLegacy_ne_diverge (hdecimal : g.Decimal) (hm : 0 < m)
    (hdigits : g.digits.toNat * 16 ^ k % 2 ^ 64 = 0)
    : popLegacy minM (20 + k) m e g ≠ .error .diverge := by
  have hrep : maxRep = 9223372036854775807 := rfl
  induction k generalizing m e g with
  | zero =>
    apply popLegacy_of_zero 19 0
    . apply UInt64.toNat_inj.mp
      have hlt := g.digits.toNat_lt
      change g.digits.toNat = 0
      omega
    . omega
  | succ k ih =>
    unfold popLegacy
    split
    . rename_i hlow
      have hpop := hdecimal.pop_lt
      have hsplit : m * 10 + 2 ^ 64 - g.pop.1 = m * 10 - g.pop.1 + 2 ^ 64 := by omega
      dsimp only
      rw [hsplit, add_mod_right, mod_eq_of_lt (by omega)]
      apply ih hdecimal.pop
      . omega
      rw [Guard.toNat_digits_pop, mod_mul_mod, mul_assoc, ← pow_succ']
      exact hdigits
    . simp

theorem subMagnitudes_ne_diverge {xn yn : Bool} {xm ym : Nat} (hdecimal : g.Decimal) (hne : xm ≠ ym)
    : subMagnitudes (scale.context mode) xn yn xm ym e g ≠ .error .diverge := by
  have hpos : 0 < (if xm > ym then (xm - ym, xn) else (ym - xm, yn)).1 := by
    split <;> dsimp only <;> omega
  apply bind_ne_diverge
  . apply popLegacy_ne_diverge (k := 44) hdecimal
    . exact hpos
    rw [show (16 : Nat) ^ 44 = 16 ^ 28 * 2 ^ 64 by norm_num, ← mul_assoc]
    exact mul_mod_left _ _
  . simp [pure, Except.pure]

theorem alignLegacy_ne {y : Parts} (hx : InRange scale x) (hy : InRange scale y)
    (hne : x.exponent = y.exponent → x.mantissa ≠ y.mantissa)
    : (alignLegacy x y).1 ≠ (alignLegacy x y).2.1 := by
  have hdiv : ∀ m k, m ≤ scale.maxM → 0 < k → m / 10 ^ k < scale.minM := by
    intro m k hm hk
    have hpow : 10 ^ 1 ≤ 10 ^ k := Nat.pow_le_pow_right (by omega) hk
    have hle : m / 10 ^ k ≤ m / 10 ^ 1 := div_le_div_left hpow (by omega)
    have hmaxM : scale.maxM / 10 < scale.minM := by cases scale <;> decide
    omega
  unfold alignLegacy
  split
  . dsimp only
    rw [shift_eq]
    have hlt := hdiv x.mantissa (y.exponent - x.exponent).toNat hx.le_maxM (by omega)
    have hle := hy.minM_le
    omega
  split
  . dsimp only
    rw [shift_eq]
    have hlt := hdiv y.mantissa (x.exponent - y.exponent).toNat hy.le_maxM (by omega)
    have hle := hx.minM_le
    omega
  . exact hne (by omega)

theorem alignLegacy_decimal {y : Parts} : (alignLegacy x y).2.2.2.Decimal := by
  unfold alignLegacy
  split
  . exact shift_decimal (.of_zero rfl)
  split
  . exact shift_decimal (.of_zero rfl)
  . exact .of_zero rfl

theorem alignLegacy_le {y : Parts}
    : (alignLegacy x y).1 ≤ x.mantissa ∧ (alignLegacy x y).2.1 ≤ y.mantissa := by
  unfold alignLegacy
  split
  . dsimp only
    rw [shift_eq]
    exact ⟨div_le_self _ _, le_refl _⟩
  split
  . dsimp only
    rw [shift_eq]
    exact ⟨le_refl _, div_le_self _ _⟩
  . exact ⟨le_refl _, le_refl _⟩

theorem addMagnitudes_ne_diverge {negative : Bool} {xm ym : Nat}
    (hx : xm ≤ scale.maxM) (hy : ym ≤ scale.maxM)
    : addMagnitudes (scale.context mode) negative xm ym e g ≠ .error .diverge := by
  apply doRoundUp_context_ne_diverge
  intro hlarge
  have hmaxM := maxM_of_ne_small hlarge
  have hcontext : (scale.context mode).maxM = scale.maxM := rfl
  split <;> dsimp only <;> omega

theorem addRoundedLegacy_ne_diverge (hn : NormalForm scale n.toParts)
    (hy : NormalForm scale y.toParts) (hscale : n.scale = scale)
    : n.addRoundedLegacy y mode ≠ .error .diverge := by
  unfold addRoundedLegacy
  split
  . simp
  rename_i hyzero
  split
  . simp
  rename_i hnzero
  split
  . simp
  rename_i hcancel
  have hn := hn.resolve_left (fun h => hnzero (by rw [isZero, h]; rfl))
  have hy := hy.resolve_left (fun h => hyzero (by rw [isZero, h]; rfl))
  have hle := alignLegacy_le (x := n.toParts) (y := y.toParts)
  apply bind_ne_diverge
  . unfold combineLegacy
    dsimp only
    split
    . rw [hscale]
      exact addMagnitudes_ne_diverge (le_trans hle.1 hn.le_maxM)
        (le_trans hle.2 hy.le_maxM)
    rename_i hsign
    apply subMagnitudes_ne_diverge alignLegacy_decimal
    apply alignLegacy_ne hn hy
    intro hexp hmant
    apply hcancel
    have hyne : y.mantissa ≠ 0 := fun h => hyzero (by rw [isZero, h]; rfl)
    unfold equal negate
    rw [if_neg hyne, beq_iff_eq]
    rcases n with ⟨⟨xn, xm, xe⟩, _⟩
    rcases y with ⟨⟨yn, ym, ye⟩, _⟩
    simp only at hsign hexp hmant
    simp only [hexp, hmant, Parts.mk.injEq, and_true]
    revert hsign
    cases xn <;> cases yn <;> simp
  intro p _
  exact normalize_ne_diverge

theorem dropZeros_spec (hempty : g.empty = true)
    : (dropZeros k m g).2.2.empty = true ∧ (dropZeros k m g).2.1 ≤ m ∧ (dropZeros k m g).1 ≤ k := by
  induction k generalizing m g with
  | zero => exact ⟨hempty, le_refl _, le_refl _⟩
  | succ k ih =>
    unfold dropZeros
    split
    . rename_i hzero
      rw [hzero]
      have hih := ih (m := m / 10) (Guard.empty_push_zero hempty)
      exact ⟨hih.1, le_trans hih.2.1 (div_le_self _ _), le_succ_of_le hih.2.2⟩
    . exact ⟨hempty, le_refl _, le_refl _⟩

theorem expand_spec (he : minExponent + k ≤ e)
    : (expand k m e).1 = 0 ∨ upperLimit ≤ (expand k m e).2.1 := by
  induction k generalizing m e with
  | zero => exact .inl rfl
  | succ k ih =>
    unfold expand
    split
    . exact ih (by omega)
    right
    dsimp only
    omega

theorem adjust_spec (expandM shrinkM : Nat) (hempty : g.empty = true)
    (hmin : minExponent ≤ shrinkE) (hlt : shrinkE < expandE)
    : (adjust expandM expandE shrinkM shrinkE g).2.2.2.empty = true
      ∨ upperLimit ≤ (adjust expandM expandE shrinkM shrinkE g).1
        ∧ (adjust expandM expandE shrinkM shrinkE g).2.1 ≤ shrinkM := by
  unfold adjust
  dsimp only
  have hdrop := dropZeros_spec (k := (expandE - shrinkE).toNat) (m := shrinkM) hempty
  generalize dropZeros (expandE - shrinkE).toNat shrinkM g = dropped at hdrop
  obtain ⟨hempty', hle, hk⟩ := hdrop
  rcases expand_spec (k := dropped.1) (m := expandM) (e := expandE) (by omega) with hzero | hupper
  . left
    rw [hzero]
    exact hempty'
  right
  refine ⟨hupper, ?_⟩
  rw [shift_eq]
  exact le_trans (div_le_self _ _) hle

theorem pop330_ne_diverge (fuel : Nat) {m : Int} (h : g.empty = true ∨ upperLimit < 5 * m)
    : pop330 (fuel + 2) m e g ≠ .error .diverge := by
  have hlimit : upperLimit = 1000000000000000000000 := rfl
  unfold pop330
  split
  . rename_i hmore
    have hlarge := h.resolve_left hmore.2
    have hpop := g.pop_lt
    dsimp only
    unfold pop330
    rw [if_neg (fun hand => absurd hand.1 (by omega))]
    simp
  . simp

theorem align330_spec {y : Parts} (hx : InRange scale x) (hy : InRange scale y)
    : (align330 x y).2.2.2.empty = true
      ∨ upperLimit < 2 * ((align330 x y).1 - (align330 x y).2.1 : Int)
      ∨ upperLimit < 2 * ((align330 x y).2.1 - (align330 x y).1 : Int) := by
  have hlimit : upperLimit = 1000000000000000000000 := rfl
  have hmaxM : scale.maxM ≤ 9999999999999999999 := by cases scale <;> decide
  have hxm := hx.le_maxM
  have hym := hy.le_maxM
  unfold align330
  split
  . rename_i hlt
    rcases adjust_spec (g := { sbit := x.negative }) y.mantissa x.mantissa rfl hx.minExponent_le hlt
      with hempty | ⟨hupper, hle⟩
    . exact .inl hempty
    right
    right
    generalize adjust y.mantissa y.exponent x.mantissa x.exponent _ = r at hupper hle
    obtain ⟨ym, xm, e, g⟩ := r
    dsimp only at hupper hle ⊢
    omega
  split
  . rename_i hgt
    rcases adjust_spec (g := { sbit := y.negative }) x.mantissa y.mantissa rfl hy.minExponent_le
      hgt with hempty | ⟨hupper, hle⟩
    . exact .inl hempty
    right
    left
    omega
  . exact .inl rfl

theorem addRounded330_ne_diverge (hn : NormalForm scale n.toParts) (hy : NormalForm scale y.toParts)
    : n.addRounded330 y mode ≠ .error .diverge := by
  unfold addRounded330
  split
  . simp
  rename_i hyzero
  split
  . simp
  rename_i hnzero
  split
  . simp
  have hn := hn.resolve_left (fun h => hnzero (by rw [isZero, h]; rfl))
  have hy := hy.resolve_left (fun h => hyzero (by rw [isZero, h]; rfl))
  have hspec := align330_spec hn hy
  dsimp only
  split
  . exact normalizeFromBigDropped_ne_diverge
  apply bind_ne_diverge
  . apply pop330_ne_diverge 62
    rcases hspec with hempty | hdiff
    . exact .inl hempty
    right
    have habs : upperLimit < 5 * ((if (align330 n.toParts y.toParts).1
        > (align330 n.toParts y.toParts).2.1
      then ((align330 n.toParts y.toParts).1 - (align330 n.toParts y.toParts).2.1, n.negative)
      else ((align330 n.toParts y.toParts).2.1 - (align330 n.toParts y.toParts).1,
        y.negative)).1 : Int) := by
      split <;> dsimp only <;> omega
    exact habs
  intro a _
  exact normalizeFromBigDropped_ne_diverge

end XRPLNumber
