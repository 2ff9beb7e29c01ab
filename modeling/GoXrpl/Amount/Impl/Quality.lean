import GoXrpl.Number.Impl.XRPLNumber

/-!
This module contains issued values, their rounded products, and the qualities of exchanges.
-/

structure IOUAmountValue where
  mantissa : Int64
  exponent : Int
  deriving DecidableEq, Repr

section

open XRPLNumber (Fault RoundingMode MantissaScale newNumber)

namespace IOUAmountValue

def minExponent : Int := -96
def maxExponent : Int := 80

def minMantissa : Int64 := 1000000000000000
def maxMantissa : Int64 := 9999999999999999

def zero : IOUAmountValue := ⟨0, -100⟩

def scaleUp : Nat → Int64 → Int → Int64 × Int
  | 0, m, e => (m, e)
  | k + 1, m, e => if m < minMantissa then scaleUp k (m * 10) (e - 1) else (m, e)

def scaleDown : Nat → Int64 → Int → Except Fault (Int64 × Int)
  | 0, m, e => .ok (m, e)
  | k + 1, m, e =>
    if m > maxMantissa then
      if e ≥ maxExponent then .error (.panic "IOUAmount overflow") else scaleDown k (m / 10) (e + 1)
    else
      .ok (m, e)

-- Three digits are dropped from the largest mantissa.
def normalizeLegacy (mantissa : Int64) (exponent : Int) : Except Fault IOUAmountValue := do
  let m := if mantissa < 0 then -mantissa else mantissa
  let (m, e) := scaleUp (exponent - minExponent).toNat m exponent
  let (m, e) ← scaleDown 19 m e
  if e < minExponent ∨ m < minMantissa then return zero
  else if e > maxExponent then .error (.panic "IOUAmount overflow")
  else return ⟨if mantissa < 0 then -m else m, e⟩

end IOUAmountValue

namespace XRPLNumber

def clampIOU (n : XRPLNumber) : Except Fault IOUAmountValue :=
  if n.externalExponent > IOUAmountValue.maxExponent then
    .error (.panic "XRPLNumber→IOUAmountValue overflow")
  else if n.externalExponent < IOUAmountValue.minExponent then .ok .zero
  else .ok ⟨n.externalMantissa, n.externalExponent⟩

def toIOUAmountValueRounded (n : XRPLNumber) (mode : RoundingMode) : Except Fault IOUAmountValue :=
  if n.isZero then .ok .zero
  else if n.scale ≠ .small then
    newNumber n.externalMantissa n.externalExponent .small mode >>= clampIOU
  else
    n.clampIOU

end XRPLNumber

structure NumberContext where
  scale : MantissaScale
  universalNumber : Bool

namespace NumberContext

-- `normalizeRounded`
def iouAmountValue (ctx : NumberContext) (mantissa : Int64) (exponent : Int) (mode : RoundingMode)
    : Except Fault IOUAmountValue :=
  if mantissa = 0 then .ok .zero
  else if ctx.universalNumber then do
    let n ← newNumber mantissa exponent ctx.scale mode
    n.toIOUAmountValueRounded mode
  else
    IOUAmountValue.normalizeLegacy mantissa exponent

end NumberContext

inductive Amount where
  | native (drops : Int64)
  | mpt (raw : Int64) (mptIssuanceID : String)
  | issued (iou : IOUAmountValue)
  deriving DecidableEq, Repr

namespace Amount

def mantissa : Amount → Int64
  | native drops => drops
  | mpt raw _ => raw
  | issued iou => iou.mantissa

def exponent : Amount → Int
  | issued iou => iou.exponent
  | _ => 0

def isZero (a : Amount) : Bool := a.mantissa == 0

def isNegative (a : Amount) : Bool := a.mantissa < 0

def newIssuedAmountFromValue (mantissa : Int64) (exponent : Int) : Except Fault IOUAmountValue :=
  NumberContext.iouAmountValue ⟨.small, false⟩ mantissa exponent .toNearest

-- The smallest signed word is its own negation, and ten times it is zero.
def scaleOperand : Nat → Int64 → Int → Except Fault (Int64 × Int)
  | 0, _, _ => .error .diverge
  | fuel + 1, m, e =>
    if m < IOUAmountValue.minMantissa then scaleOperand fuel (m * 10) (e - 1) else .ok (m, e)

def prepareMulDivOperand (a : Amount) : Except Fault (Int64 × Int) :=
  let m := if a.mantissa < 0 then -a.mantissa else a.mantissa
  match a with
  | issued _ | mpt _ "" => .ok (m, a.exponent)
  | native _ | mpt _ _ => scaleOperand 64 m a.exponent

def muldivRound (x y divisor : Int) (addSlop : Bool) : Except Fault Nat :=
  let n := (if addSlop then x * y + (divisor - 1) else x * y) / divisor
  if n < 0 ∨ n ≥ 2 ^ 64 then .error (.panic "muldivRound overflow") else .ok n.toNat

def mulMantissas (value1 value2 : Int64) (addSlop : Bool) : Except Fault Nat :=
  muldivRound value1.toInt value2.toInt 100000000000000 addSlop

def dropDigits : Nat → Nat → Int → Nat × Int
  | 0, amount, offset => (amount, offset)
  | k + 1, amount, offset =>
    if amount > 10 * 9999999999999999 then dropDigits k (amount / 10) (offset + 1)
    else (amount, offset)

def canonicalizeRoundIOUOverflow (amount : Nat) (offset : Int) : Nat × Int :=
  if amount > 9999999999999999 then
    let (amount, offset) := dropDigits 20 amount offset
    ((amount + 9) / 10, offset + 1)
  else
    (amount, offset)

def finalizeRoundIOUWithNumberContext (amount : Nat) (offset : Int) (resultNegative roundUp : Bool)
    (mode : Option RoundingMode) (ctx : NumberContext) : Except Fault IOUAmountValue := do
  let mantissa := if resultNegative then -Int64.ofNat amount else Int64.ofNat amount
  let result ← ctx.iouAmountValue mantissa offset (mode.getD .toNearest)
  if roundUp ∧ ¬ resultNegative ∧ result.mantissa = 0 then
    ctx.iouAmountValue IOUAmountValue.minMantissa IOUAmountValue.minExponent .toNearest
  else
    return result

def mulRoundWithNumberContext (v1 v2 : Amount) (ctx : NumberContext) (roundUp : Bool)
    : Except Fault IOUAmountValue :=
  if v1.isZero || v2.isZero then
    newIssuedAmountFromValue 0 (-100)
  else do
    let (value1, offset1) ← v1.prepareMulDivOperand
    let (value2, offset2) ← v2.prepareMulDivOperand
    let resultNegative := v1.isNegative != v2.isNegative
    let addSlop := resultNegative != roundUp
    let amount ← mulMantissas value1 value2 addSlop
    let offset := offset1 + offset2 + 14
    let (amount, offset) :=
      if addSlop then canonicalizeRoundIOUOverflow amount offset else (amount, offset)
    finalizeRoundIOUWithNumberContext amount offset resultNegative roundUp none ctx

end Amount

structure Quality where
  value : UInt64
  deriving DecidableEq, Repr

namespace Quality

def mantissa (q : Quality) : Nat := (q.value &&& 0x00FFFFFFFFFFFFFF).toNat

def exponent (q : Quality) : Int := (q.value >>> 56).toNat - 100

def rate (q : Quality) : Except Fault Amount :=
  if q.value = 0 then .issued <$> Amount.newIssuedAmountFromValue 0 (-100)
  else .issued <$> Amount.newIssuedAmountFromValue (Int64.ofNat q.mantissa) q.exponent

def grow : Nat → Nat → Int → Nat × Int
  | 0, product, offset => (product, offset)
  | k + 1, product, offset =>
    if product < 1000000000000000 ∧ 0 < product then grow k (product * 10) (offset - 1)
    else (product, offset)

def shrink : Nat → Nat → Int → Nat × Int
  | 0, product, offset => (product, offset)
  | k + 1, product, offset =>
    if product > 9999999999999999 then shrink k ((product + 9) / 10) (offset + 1)
    else (product, offset)

-- A product of two mantissas of 56 bits has at most twenty digits left after the division.
def canonicalizeRound (product : Nat) (offset : Int) : Nat × Int :=
  let (product, offset) := grow 20 product offset
  shrink 20 product offset

def composeParts (q other : Quality) : Nat × Int :=
  canonicalizeRound ((q.mantissa * other.mantissa + 99999999999999) / 100000000000000)
    (q.exponent + other.exponent + 14)

def compose (q other : Quality) : Quality :=
  if q.value = 0 ∨ other.value = 0 then ⟨0⟩
  else if q.mantissa = 0 ∨ other.mantissa = 0 then ⟨0⟩
  else
    let (product, offset) := q.composeParts other
    ⟨UInt64.ofInt (offset + 100) <<< 56 ||| UInt64.ofNat product⟩

end Quality

end
