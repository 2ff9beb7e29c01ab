import Mathlib.Algebra.Group.Int.Defs
import Mathlib.Algebra.Group.Nat.Defs

/-!
This module contains the decimal numbers that amounts are computed with, their arithmetic, and the
guard that keeps the digits dropped from a mantissa.
-/

structure XRPLNumber.Parts where
  negative : Bool
  mantissa : Nat
  exponent : Int
  deriving DecidableEq, Repr

inductive XRPLNumber.MantissaScale where
  | small
  | largeLegacy
  | large320
  | large330
  deriving DecidableEq, Repr

structure XRPLNumber extends XRPLNumber.Parts where
  scale : XRPLNumber.MantissaScale
  deriving DecidableEq, Repr

namespace XRPLNumber

def minExponent : Int := -32768
def maxExponent : Int := 32768

def zeroExponent : Int := -2147483648

def maxRep : Nat := 9223372036854775807

def maxRepUp : Nat := 9223372036854775810

inductive CuspRoundingFix where
  | disabled
  | rounding320
  | rounding330
  deriving DecidableEq, Repr

inductive RoundingMode where
  | toNearest
  | towardsZero
  | downward
  | upward
  deriving DecidableEq, Repr

inductive Fault where
  | panic (message : String)
  | diverge
  deriving DecidableEq, Repr

inductive Direction where
  | exact
  | down
  | half
  | up
  deriving DecidableEq, Repr

structure Guard where
  digits : UInt64 := 0
  xbit : Bool := false
  sbit : Bool := false
  deriving DecidableEq, Repr

namespace Guard

def push (g : Guard) (d : Nat) : Guard :=
  { g with
    xbit := g.xbit || g.digits &&& 0x000000000000000F != 0
    digits := (g.digits >>> 4) ||| (UInt64.ofNat (d % 16) <<< 60) }

def pop (g : Guard) : Nat × Guard :=
  (((g.digits &&& 0xF000000000000000) >>> 60).toNat, { g with digits := g.digits <<< 4 })

def empty (g : Guard) : Bool := g.digits == 0 && !g.xbit

def round (g : Guard) (mode : RoundingMode) (fix : CuspRoundingFix) : Direction :=
  if fix = .rounding330 ∧ g.empty then
    .exact
  else
    match mode with
    | .towardsZero => .down
    | .downward => if g.sbit ∧ ¬ g.empty then .up else .down
    | .upward => if g.sbit then .down else if ¬ g.empty then .up else .down
    | .toNearest =>
      if g.digits > 0x5000000000000000 then .up
      else if g.digits < 0x5000000000000000 then .down
      else if g.xbit then .up
      else .half

def pushOverflow (g : Guard) (m : Nat) (mode : RoundingMode) (fix : CuspRoundingFix) : Guard :=
  if fix ≠ .rounding330 ∨ m < maxRep ∨ m ≥ maxRepUp then
    g
  else
    let r := g.round mode fix
    let m := if m % 10 < 9 ∧ (r = .up ∨ r = .half ∧ m = maxRep + 1) then m + 1 else m
    g.push ((m - maxRep) * 10 / (maxRepUp - maxRep))

end Guard

def Parts.zero : Parts := ⟨false, 0, zeroExponent⟩

structure Context where
  minM : Nat
  maxM : Nat
  fix : CuspRoundingFix
  mode : RoundingMode

def Context.repLimit (c : Context) : Nat :=
  if c.fix = .rounding330 then maxRepUp else maxRep

variable (c : Context)

def bringIntoRange (p : Parts) : Parts :=
  let p :=
    if p.mantissa < c.minM ∧ (c.fix ≠ .rounding330 ∨ p.mantissa ≠ 0) then
      { p with mantissa := p.mantissa * 10, exponent := p.exponent - 1 }
    else
      p
  if p.exponent < minExponent ∨ c.fix = .rounding330 ∧ p.mantissa = 0 then .zero else p

def finishRoundUp (loc : String) (p : Parts) : Except Fault Parts :=
  let p := bringIntoRange c p
  if p.exponent > maxExponent then .error (.panic loc) else .ok p

def doRoundUp (loc : String) : Nat → Guard → Parts → Except Fault Parts
  | 0, _, _ => .error .diverge
  | depth + 1, g, p =>
    let g := g.pushOverflow p.mantissa c.mode c.fix
    let r := g.round c.mode c.fix
    if r = .up ∨ r = .half ∧ p.mantissa % 2 = 1 then
      if c.fix ≠ .disabled then
        if p.mantissa < c.maxM ∧ p.mantissa < maxRep then
          finishRoundUp c loc { p with mantissa := p.mantissa + 1 }
        else if c.fix = .rounding330 ∧ p.mantissa > maxRep ∧ p.mantissa < maxRepUp then
          finishRoundUp c loc { p with mantissa := maxRepUp }
        else
          doRoundUp loc depth (g.push (p.mantissa % 10))
            { p with mantissa := p.mantissa / 10, exponent := p.exponent + 1 }
      else if p.mantissa + 1 > c.maxM ∨ p.mantissa + 1 > maxRep then
        finishRoundUp c loc
          { p with mantissa := (p.mantissa + 1) / 10, exponent := p.exponent + 1 }
      else
        finishRoundUp c loc { p with mantissa := p.mantissa + 1 }
    else if c.fix = .rounding330 ∧ p.mantissa > maxRep ∧ p.mantissa < maxRepUp then
      finishRoundUp c loc { p with mantissa := maxRep }
    else
      finishRoundUp c loc p

def maxDepth : Nat := 20

-- The decrement of a mantissa wraps around at zero.
def doRoundDown (g : Guard) (p : Parts) : Parts :=
  let r := g.round c.mode c.fix
  let less := (p.mantissa + 2 ^ 64 - 1) % 2 ^ 64
  if c.fix = .rounding330 then
    bringIntoRange c (if r ≠ .exact then { p with mantissa := less } else p)
  else if r = .up ∨ r = .half ∧ p.mantissa % 2 = 1 then
    bringIntoRange c
      (if less < c.minM then { p with mantissa := less * 10, exponent := p.exponent - 1 }
        else { p with mantissa := less })
  else
    bringIntoRange c p

def scaleUp : Nat → Nat → Int → Nat × Int
  | 0, m, e => (m, e)
  | k + 1, m, e => if m < c.minM then scaleUp k (m * 10) (e - 1) else (m, e)

def scaleDown (limit : Nat) : Nat → Nat → Int → Guard → Except Fault (Nat × Int × Guard)
  | 0, m, e, g => .ok (m, e, g)
  | k + 1, m, e, g =>
    if m > limit then
      if e ≥ maxExponent then .error (.panic "XRPLNumber::normalize overflow")
      else scaleDown limit k (m / 10) (e + 1) (g.push (m % 10))
    else
      .ok (m, e, g)

def doNormalize (dropped : Bool) (p : Parts) : Except Fault Parts :=
  if p.mantissa = 0 then
    .ok .zero
  else do
    let (m, e) := scaleUp c (p.exponent - minExponent).toNat p.mantissa p.exponent
    let g : Guard := { sbit := p.negative, xbit := dropped }
    let (m, e, g) ← scaleDown c.maxM m m e g
    if e < minExponent ∨ m < c.minM then
      return .zero
    else
      let (m, e, g) ← scaleDown c.repLimit 1 m e g
      doRoundUp c "XRPLNumber::normalize overflow" maxDepth g ⟨p.negative, m, e⟩

namespace MantissaScale

def minM : MantissaScale → Nat
  | .small => 1000000000000000
  | _ => 1000000000000000000

def maxM : MantissaScale → Nat
  | .small => 9999999999999999
  | _ => 9999999999999999999

def rangeLog : MantissaScale → Int
  | .small => 15
  | _ => 18

def cuspRoundingFix : MantissaScale → CuspRoundingFix
  | .large320 => .rounding320
  | .large330 => .rounding330
  | _ => .disabled

def context (scale : MantissaScale) (mode : RoundingMode) : Context :=
  ⟨scale.minM, scale.maxM, scale.cuspRoundingFix, mode⟩

end MantissaScale

def zero (scale : MantissaScale) : XRPLNumber := ⟨.zero, scale⟩

def isZero (n : XRPLNumber) : Bool := n.mantissa == 0

def equal (n other : XRPLNumber) : Bool := n.toParts == other.toParts

def negate (n : XRPLNumber) : XRPLNumber :=
  if n.mantissa = 0 then n else { n with negative := !n.negative }

def oneVal (scale : MantissaScale) : XRPLNumber :=
  ⟨⟨false, scale.minM, -scale.rangeLog⟩, scale⟩

-- `Mantissa` and `Exponent`
def externalMantissa (n : XRPLNumber) : Int64 :=
  let m := if n.mantissa > maxRep then n.mantissa / 10 else n.mantissa
  if n.negative then -Int64.ofNat m else Int64.ofNat m

def externalExponent (n : XRPLNumber) : Int :=
  if n.mantissa > maxRep then n.exponent + 1 else n.exponent

def normalize (n : XRPLNumber) (mode : RoundingMode) : Except Fault XRPLNumber := do
  let p ← doNormalize (n.scale.context mode) false n.toParts
  return ⟨p, n.scale⟩

def normalizeFromBigDropped (negative : Bool) (m : Nat) (e : Int) (scale : MantissaScale)
    (mode : RoundingMode) (dropped : Bool) : Except Fault XRPLNumber := do
  let p ← doNormalize (scale.context mode) dropped ⟨negative, m, e⟩
  return ⟨p, scale⟩

def normalizeFromBig (negative : Bool) (m : Nat) (e : Int) (scale : MantissaScale)
    (mode : RoundingMode) : Except Fault XRPLNumber :=
  normalizeFromBigDropped negative m e scale mode false

def externalToInternal (mantissa : Int64) : Bool × Nat :=
  if mantissa ≥ 0 then (false, mantissa.toInt.toNat)
  else if mantissa ≥ -9223372036854775807 then (true, (-mantissa).toInt.toNat)
  else (true, maxRep + 1)

def newNumber (mantissa : Int64) (exponent : Int) (scale : MantissaScale) (mode : RoundingMode)
    : Except Fault XRPLNumber :=
  let (negative, m) := externalToInternal mantissa
  normalize ⟨⟨negative, m, exponent⟩, scale⟩ mode

def newXRPLNumberFromUint (mantissa : UInt64) (exponent : Int) : Except Fault XRPLNumber :=
  normalize ⟨⟨false, mantissa.toNat, exponent⟩, .small⟩ .toNearest

def truncate (n : XRPLNumber) : Except Fault XRPLNumber :=
  if n.mantissa = 0 ∨ n.exponent ≥ 0 then
    .ok n
  else
    normalizeFromBig n.negative (n.mantissa / 10 ^ (-n.exponent).toNat) 0 n.scale .toNearest

def shift : Nat → Nat → Guard → Nat × Guard
  | 0, m, g => (m, g)
  | k + 1, m, g => shift k (m / 10) (g.push (m % 10))

def popLegacy (minM : Nat) : Nat → Nat → Int → Guard → Except Fault (Nat × Int × Guard)
  | 0, _, _, _ => .error .diverge
  | fuel + 1, m, e, g =>
    if m < minM ∧ m ≤ maxRep / 10 then
      let (d, g) := g.pop
      popLegacy minM fuel ((m * 10 + 2 ^ 64 - d) % 2 ^ 64) (e - 1) g
    else
      .ok (m, e, g)

def popFuel : Nat := 64

def addMagnitudes (c : Context) (negative : Bool) (xm ym : Nat) (e : Int) (g : Guard)
    : Except Fault Parts :=
  let sum := xm + ym
  let big := sum ≥ 2 ^ 64 ∨ sum > c.maxM ∨ sum > maxRep
  doRoundUp c "XRPLNumber::addition overflow" maxDepth (if big then g.push (sum % 10) else g)
    (if big then ⟨negative, sum / 10, e + 1⟩ else ⟨negative, sum, e⟩)

def subMagnitudes (c : Context) (xn yn : Bool) (xm ym : Nat) (e : Int) (g : Guard)
    : Except Fault Parts := do
  let (m, negative) := if xm > ym then (xm - ym, xn) else (ym - xm, yn)
  let (m, e, g) ← popLegacy c.minM popFuel m e g
  return doRoundDown c g ⟨negative, m, e⟩

def alignLegacy (x y : Parts) : Nat × Nat × Int × Guard :=
  if x.exponent < y.exponent then
    let (xm, g) := shift (y.exponent - x.exponent).toNat x.mantissa { sbit := x.negative }
    (xm, y.mantissa, y.exponent, g)
  else if x.exponent > y.exponent then
    let (ym, g) := shift (x.exponent - y.exponent).toNat y.mantissa { sbit := y.negative }
    (x.mantissa, ym, x.exponent, g)
  else
    (x.mantissa, y.mantissa, x.exponent, {})

def combineLegacy (c : Context) (x y : Parts) : Except Fault Parts :=
  let (xm, ym, e, g) := alignLegacy x y
  if x.negative = y.negative then addMagnitudes c x.negative xm ym e g
  else subMagnitudes c x.negative y.negative xm ym e g

def addRoundedLegacy (n y : XRPLNumber) (mode : RoundingMode) : Except Fault XRPLNumber :=
  if y.isZero then
    .ok n
  else if n.isZero then
    .ok y
  else if n.equal y.negate then
    .ok (zero n.scale)
  else do
    let p ← combineLegacy (n.scale.context mode) n.toParts y.toParts
    normalize ⟨p, n.scale⟩ mode

def upperLimit : Nat := 1000000000000000000 * 1000

-- The three loops of `adjust`, over the distance of the exponents.
def dropZeros : Nat → Nat → Guard → Nat × Nat × Guard
  | 0, m, g => (0, m, g)
  | k + 1, m, g => if m % 10 = 0 then dropZeros k (m / 10) (g.push (m % 10)) else (k + 1, m, g)

def expand : Nat → Nat → Int → Nat × Nat × Int
  | 0, m, e => (0, m, e)
  | k + 1, m, e =>
    if e > minExponent ∧ m < upperLimit then expand k (m * 10) (e - 1) else (k + 1, m, e)

def adjust (expandM : Nat) (expandE : Int) (shrinkM : Nat) (shrinkE : Int) (g : Guard)
    : Nat × Nat × Int × Guard :=
  let (k, shrinkM, g) := dropZeros (expandE - shrinkE).toNat shrinkM g
  let (k, expandM, e) := expand k expandM expandE
  let (shrinkM, g) := shift k shrinkM g
  (expandM, shrinkM, e, g)

def align330 (x y : Parts) : Nat × Nat × Int × Guard :=
  if x.exponent < y.exponent then
    let (ym, xm, e, g) := adjust y.mantissa y.exponent x.mantissa x.exponent { sbit := x.negative }
    (xm, ym, e, g)
  else if x.exponent > y.exponent then
    adjust x.mantissa x.exponent y.mantissa y.exponent { sbit := y.negative }
  else
    (x.mantissa, y.mantissa, x.exponent,
      { sbit := x.mantissa < y.mantissa && x.negative || y.mantissa < x.mantissa && y.negative })

def pop330 : Nat → Int → Int → Guard → Except Fault (Int × Int × Guard)
  | 0, _, _, _ => .error .diverge
  | fuel + 1, m, e, g =>
    if m < upperLimit ∧ ¬ g.empty then
      let (d, g) := g.pop
      pop330 fuel (m * 10 - d) (e - 1) g
    else
      .ok (m, e, g)

-- A difference below zero is normalized to zero, as zero itself is.
def addRounded330 (n y : XRPLNumber) (mode : RoundingMode) : Except Fault XRPLNumber :=
  if y.isZero then
    .ok n
  else if n.isZero then
    .ok y
  else if n.equal y.negate then
    .ok (zero n.scale)
  else
    let (xm, ym, e, g) := align330 n.toParts y.toParts
    if n.negative = y.negative then
      normalizeFromBigDropped n.negative (xm + ym) e n.scale mode (!g.empty)
    else do
      let (m, negative) := if xm > ym then (xm - ym, n.negative) else (ym - xm, y.negative)
      let (m, e, g) ← pop330 popFuel m e g
      let m := if g.round mode .rounding330 ≠ .exact then m - 1 else m
      normalizeFromBigDropped negative m.toNat e n.scale mode (!g.empty)

def addRounded (n y : XRPLNumber) (mode : RoundingMode) : Except Fault XRPLNumber :=
  if n.scale = .large330 then n.addRounded330 y mode else n.addRoundedLegacy y mode

def sub (n y : XRPLNumber) : Except Fault XRPLNumber := n.addRounded y.negate .toNearest

def shrinkProduct (c : Context) : Nat → Nat → Int → Guard → Nat × Int × Guard
  | 0, m, e, g => (m, e, g)
  | k + 1, m, e, g =>
    if m > c.maxM ∨ m > c.repLimit then
      shrinkProduct c k (m / 10) (e + 1) (g.push (m % 10))
    else
      (m, e, g)

def mulRounded (n y : XRPLNumber) (mode : RoundingMode) : Except Fault XRPLNumber :=
  if n.isZero then
    .ok n
  else if y.isZero then
    .ok y
  else do
    let c := n.scale.context mode
    let negative := n.negative != y.negative
    let product := n.mantissa * y.mantissa
    let (m, e, g) :=
      shrinkProduct c product product (n.exponent + y.exponent) { sbit := negative }
    let p ← doRoundUp c "XRPLNumber::multiplication overflow" maxDepth g ⟨negative, m, e⟩
    normalize ⟨p, n.scale⟩ mode

def quotient (n y : XRPLNumber) : Nat × Int × Bool :=
  let numerator := n.mantissa * 100000000000000000
  let m := numerator / y.mantissa
  let remainder := numerator % y.mantissa
  let e := n.exponent - y.exponent - 17
  if n.scale ≠ .small ∧ remainder ≠ 0 then
    let partialNumerator := remainder * 100000
    let correction := partialNumerator / y.mantissa
    let dropped := n.scale.cuspRoundingFix ≠ .disabled ∧ partialNumerator % y.mantissa ≠ 0
    if correction ≠ 0 then (m * 100000 + correction, e - 5, dropped) else (m, e, dropped)
  else
    (m, e, false)

def divRounded (n y : XRPLNumber) (mode : RoundingMode) : Except Fault XRPLNumber :=
  if y.isZero then
    .error (.panic "XRPLNumber: divide by zero")
  else if n.isZero then
    .ok n
  else
    let (m, e, dropped) := n.quotient y
    normalizeFromBigDropped (n.negative != y.negative) m e n.scale mode dropped

end XRPLNumber
