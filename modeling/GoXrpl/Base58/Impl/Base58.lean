import Mathlib.Data.Nat.Digits.Defs

/-!
This module contains the Base58 encoding of byte strings and its variant with a checksum. A string is
the list of its bytes.
-/

namespace Base58

def xrpAlphabet : List UInt8 :=
  ['r', 'p', 's', 'h', 'n', 'a', 'f', '3', '9', 'w', 'B', 'U', 'D', 'N', 'E', 'G', 'H', 'J', 'K',
    'L', 'M', '4', 'P', 'Q', 'R', 'S', 'T', '7', 'V', 'W', 'X', 'Y', 'Z', '2', 'b', 'c', 'd', 'e',
    'C', 'g', '6', '5', 'j', 'k', 'm', '8', 'o', 'F', 'q', 'i', '1', 't', 'u', 'v', 'A', 'x', 'y',
    'z'].map Char.toUInt8

def alphabetIdx0 : UInt8 := 'r'.toUInt8

-- The bytes before 48 and those from 128 on are 255, too.
def b58Table : List UInt8 :=
  [255, 50, 33, 7, 21, 41, 40, 27,
    45, 8, 255, 255, 255, 255, 255, 255,
    255, 54, 10, 38, 12, 14, 47, 15,
    16, 255, 17, 18, 19, 20, 13, 255,
    22, 23, 24, 25, 26, 11, 28, 29,
    30, 31, 32, 255, 255, 255, 255, 255,
    255, 5, 34, 35, 36, 37, 6, 39,
    3, 49, 42, 43, 255, 44, 4, 46,
    1, 48, 0, 2, 51, 52, 53, 9,
    55, 56, 57, 255, 255, 255, 255, 255]

def b58 (b : UInt8) : UInt8 := if b < 48 then 255 else b58Table.getD (b.toNat - 48) 255

def digit (d : Nat) : UInt8 := xrpAlphabet.getD d 0

def setBytes (b : List UInt8) : Nat := b.foldl (fun x i => x * 256 + i.toNat) 0

def bytes (x : Nat) : List UInt8 := ((Nat.digits 256 x).map UInt8.ofNat).reverse

def lastChunk (m : Nat) : List UInt8 :=
  if m > 0 then digit (m % 58) :: lastChunk (m / 58) else []
decreasing_by exact Nat.div_lt_self ‹_› (by decide)

def fullChunk : Nat → Nat → List UInt8
  | 0, _ => []
  | k + 1, m => digit (m % 58) :: fullChunk k (m / 58)

-- `mod` is below 58^10, and so an `int64`.
def chunks (x : Nat) : List UInt8 :=
  if x > 0 then
    let mod := x % 58 ^ 10
    if x / 58 ^ 10 = 0 then lastChunk mod else fullChunk 10 mod ++ chunks (x / 58 ^ 10)
  else
    []
decreasing_by exact Nat.div_lt_self ‹_› (by decide)

def encodeBase58 (b : List UInt8) : List UInt8 :=
  (chunks (setBytes b) ++ (b.takeWhile (· = 0)).map fun _ => alphabetIdx0).reverse

-- `bigRadix[0]` is not used.
def bigRadix (n : Nat) : Nat := if n = 0 then 0 else 58 ^ n

def chunkTotal (total : Nat) : List UInt8 → Option Nat
  | [] => some total
  | c :: t => if b58 c = 255 then none else chunkTotal (total * 58 + (b58 c).toNat) t

def decodeChunks (answer : Nat) (t : List UInt8) : Option Nat :=
  if 0 < t.length then
    let n := min t.length 10
    match chunkTotal 0 (t.take n) with
    | none => none
    | some total => decodeChunks (answer * bigRadix n + total) (t.drop n)
  else
    some answer
termination_by t.length
decreasing_by
  rw [List.length_drop]
  omega

def decodeBase58 (b : List UInt8) : List UInt8 :=
  match decodeChunks 0 b with
  | none => []
  | some answer => (b.takeWhile (· = alphabetIdx0)).map (fun _ => 0) ++ bytes answer

class Sha256 where
  sum256 : List UInt8 → Vector UInt8 32

inductive Error where
  | invalidFormat
  | checksum
  deriving DecidableEq

section Check

variable [Sha256]

def checksum (input : List UInt8) : List UInt8 :=
  (Sha256.sum256 (Sha256.sum256 input).toList).toList.take 4

def base58CheckEncode (input pre : List UInt8) : List UInt8 :=
  let b := pre ++ input
  encodeBase58 (b ++ checksum b)

def base58CheckDecode (input : List UInt8) : Except Error (List UInt8) :=
  let decoded := decodeBase58 input
  if decoded.length < 5 then
    .error .invalidFormat
  else
    let result := decoded.take (decoded.length - 4)
    if checksum result ≠ decoded.drop (decoded.length - 4) then .error .checksum else .ok result

end Check

end Base58
