import GoXrpl.Number.Impl.XRPLNumber

/-!
This module contains the products of two amounts that count whole units, and the conversion of a
number to whole units.
-/

namespace XRPLNumber

def newXRPLNumberRawUnsigned (mantissa : UInt64) (exponent : Int) : XRPLNumber :=
  ⟨⟨false, mantissa.toNat, exponent⟩, .small⟩

def scaleDrops : Nat → Nat → Except Fault Nat
  | 0, drops => .ok drops
  | k + 1, drops =>
    if drops > maxRep / 10 then .error (.panic "XRPLNumber::operator rep() overflow")
    else scaleDrops k (drops * 10)

def roundDrops (r : Direction) (drops : Nat) : Except Fault Nat :=
  if r = .up ∨ r = .half ∧ drops % 2 = 1 then
    if drops ≥ maxRep then .error (.panic "XRPLNumber::operator rep() rounding overflow")
    else .ok (drops + 1)
  else
    .ok drops

def toInt64WithMode (n : XRPLNumber) (mode : RoundingMode) : Except Fault Int64 :=
  let mantissa := n.externalMantissa
  let offset := n.externalExponent
  if mantissa = 0 then
    .ok 0
  else do
    let (drops, g) := shift (-offset).toNat mantissa.toInt.natAbs { sbit := decide (mantissa < 0) }
    let drops ← scaleDrops offset.toNat drops
    let drops ← roundDrops (g.round mode n.scale.cuspRoundingFix) drops
    return if g.sbit then -Int64.ofNat drops else Int64.ofNat drops

end XRPLNumber

namespace Amount

open XRPLNumber

def maxNativeDrops : Int64 := 100000000000000000

def guardNativeDrops (value : Int64) : Except Fault Unit :=
  if value > maxNativeDrops then .error (.panic "Native currency amount out of range") else .ok ()

def mulNativeNative (a b : Int64) : Except Fault Int64 :=
  if a > b then ordered b a else ordered a b
where
  ordered (a b : Int64) : Except Fault Int64 :=
    let minV := a.toUInt64
    let maxV := b.toUInt64
    if minV > 3000000000 ∨ maxV >>> 32 * minV > 2095475792 then
      .error (.panic "Native value overflow")
    else do
      let product := (minV * maxV).toInt64
      guardNativeDrops product
      return product

def materializeMPTRound (number : XRPLNumber) (mode : RoundingMode) : Except Fault Int64 := do
  let value ← number.toInt64WithMode mode
  if value = Int64.minValue then .error (.panic "MPT amount out of range") else .ok value

-- The arguments are the answers of `MPTRaw`.
def mulRoundMPTMPT (v1 v2 : Option Int64) : Except Fault Int64 :=
  match v1, v2 with
  | some value1, some value2 =>
    if value1 < 0 ∨ value2 < 0 then
      .error (.panic "MPT value overflow")
    else if value1.toUInt64 > value2.toUInt64 then
      ordered value2.toUInt64 value1.toUInt64
    else
      ordered value1.toUInt64 value2.toUInt64
  | _, _ => .error (.panic "MPT value overflow")
where
  ordered (minValue maxValue : UInt64) : Except Fault Int64 :=
    if minValue > 3037000499 ∨ maxValue >>> 32 * minValue > 2147483648 then
      .error (.panic "MPT value overflow")
    else
      materializeMPTRound (newXRPLNumberRawUnsigned (minValue * maxValue) 0) .toNearest

end Amount
