import Mathlib.Algebra.Group.Nat.Defs

/-!
This module contains the Go types shared by the packages.
-/

abbrev Hash256 := Vector UInt8 32

instance Hash256.lawfulBEq : LawfulBEq Hash256 := Vector.instLawfulBEq

theorem Hash256.size_pos : 0 < 32 := Nat.zero_lt_succ 31

/--
`sha512half.Sum` of the concatenated arguments. Nothing about the function is used.
-/
class Sha512Half where
  sum : List UInt8 → Hash256

def Hash256.zero : Hash256 := Vector.replicate 32 0

def maxUint32 : Nat := 2 ^ 32 - 1

-- Sums and differences of `uint32` values wrap around.
def add32 (a b : Nat) : Nat := (a + b) % 2 ^ 32

def sub32 (a b : Nat) : Nat := (a + 2 ^ 32 - b) % 2 ^ 32

theorem add32_eq (h : a + b ≤ maxUint32) : add32 a b = a + b := by
  unfold maxUint32 at h
  unfold add32
  omega

theorem sub32_eq (hab : b ≤ a) (ha : a ≤ maxUint32) : sub32 a b = a - b := by
  unfold maxUint32 at ha
  unfold sub32
  omega
