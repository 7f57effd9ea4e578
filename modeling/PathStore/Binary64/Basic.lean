/-!
# Double-precision numbers

A double-precision number is its 64 bits: a sign, eleven exponent bits and 52 fraction bits.  A
finite one denotes `significand · 2 ^ exponent` exactly, and every operation here computes with
exact natural numbers and rounds once, to the nearest number and among two equally near ones to the
one with an even significand.  Nothing depends on the arithmetic of the machine.
-/

namespace PathStore

/-- A double-precision number in its interchange format. -/
structure Binary64 where
  bits : UInt64
deriving Repr, DecidableEq

namespace Binary64

def signBit : Nat := Nat.pow 2 63

def infinityBits : Nat := 0x7FF * Nat.pow 2 52

/-- The number with the given sign whose other 63 bits are `magnitude`. -/
def ofMagnitude (negative : Bool) (magnitude : Nat) : Binary64 :=
  ⟨UInt64.ofNat (if negative then signBit + magnitude else magnitude)⟩

def zero (negative : Bool) : Binary64 := ofMagnitude negative 0

def infinity (negative : Bool) : Binary64 := ofMagnitude negative infinityBits

def nan : Binary64 := ofMagnitude false (infinityBits + Nat.pow 2 51)

def isNegative (x : Binary64) : Bool := signBit ≤ x.bits.toNat

def magnitude (x : Binary64) : Nat := x.bits.toNat % signBit

def isNaN (x : Binary64) : Bool := infinityBits < x.magnitude

def isFinite (x : Binary64) : Bool := x.magnitude < infinityBits

def exponentField (x : Binary64) : Nat := x.magnitude / Nat.pow 2 52

def fraction (x : Binary64) : Nat := x.magnitude % Nat.pow 2 52

def significand (x : Binary64) : Nat :=
  if x.exponentField = 0 then x.fraction else Nat.pow 2 52 + x.fraction

def exponent (x : Binary64) : Int :=
  if x.exponentField = 0 then -1074 else (x.exponentField : Int) - 1075

/-- The integer nearest to `num / den`, a tie going to the even one. -/
def nearestInteger (num den : Nat) : Nat :=
  let quotient := num / den
  let twice := 2 * (num % den)
  if twice > den || (twice = den && quotient % 2 = 1) then quotient + 1 else quotient

/-- The numerator and the denominator of `num / den · 2 ^ power`. -/
def shifted (num den : Nat) (power : Int) : Nat × Nat :=
  (num * Nat.pow 2 power.toNat, den * Nat.pow 2 (-power).toNat)

/-- The exponent at which `num / den` has a significand of 53 bits, or the smallest one. -/
def roundingExponent (num den : Nat) : Int :=
  let guess : Int := (Nat.log2 num : Int) - Nat.log2 den - 52
  let (n, d) := shifted num den (-guess)
  max (-1074) (if n / d < Nat.pow 2 52 then guess - 1 else guess)

/-- The number nearest to `num / den`, infinity when that is out of range.  A carry out of the
significand runs into the exponent bits, as it should. -/
def round (negative : Bool) (num den : Nat) : Binary64 :=
  if num = 0 then zero negative
  else
    let power := roundingExponent num den
    let (n, d) := shifted num den (-power)
    let magnitude := (power + 1074).toNat * Nat.pow 2 52 + nearestInteger n d
    ofMagnitude negative (min magnitude infinityBits)

def roundScaled (negative : Bool) (num den : Nat) (power : Int) : Binary64 :=
  let (n, d) := shifted num den power
  round negative n d

def ofNat (n : Nat) : Binary64 := round false n 1

def ofInt (i : Int) : Binary64 := round (i < 0) i.natAbs 1

def neg (x : Binary64) : Binary64 := ofMagnitude (!x.isNegative) x.magnitude

/-- The significand with the sign of the number, at a power of two not above its own. -/
def aligned (x : Binary64) (power : Int) : Int :=
  let size : Nat := x.significand * Nat.pow 2 (x.exponent - power).toNat
  if x.isNegative then -(size : Int) else size

def add (x y : Binary64) : Binary64 :=
  let power := min x.exponent y.exponent
  let sum := x.aligned power + y.aligned power
  if sum = 0 then zero (x.isNegative && y.isNegative)
  else roundScaled (sum < 0) sum.natAbs 1 power

def mul (x y : Binary64) : Binary64 :=
  roundScaled (x.isNegative != y.isNegative) (x.significand * y.significand) 1
    (x.exponent + y.exponent)

/-- The rounded quotient of two finite numbers, the second one not zero. -/
def div (x y : Binary64) : Binary64 :=
  roundScaled (x.isNegative != y.isNegative) x.significand y.significand (x.exponent - y.exponent)

/-- The place of a number in the order of all numbers; the two zeros share theirs. -/
def ordinal (x : Binary64) : Int :=
  if x.isNegative then -(x.magnitude : Int) else x.magnitude

/-- Whether `x` lies strictly below `y`; nothing lies below or above what is not a number. -/
def lt (x y : Binary64) : Bool :=
  !x.isNaN && !y.isNaN && x.ordinal < y.ordinal

example : (ofNat 9007199254740993).bits = 0x4340000000000000 := by decide +kernel

example : (round false 1 10).bits = 0x3FB999999999999A := by decide +kernel

example : add (round false 1 10) (round false 2 10) = ⟨0x3FD3333333333334⟩ := by decide +kernel

example : round true 5 (10 ^ 324) = ⟨0x8000000000000001⟩ := by decide +kernel

example : round false (10 ^ 309) 1 = infinity false := by decide +kernel

example : lt (zero true) (zero false) = false := by decide +kernel

end Binary64

end PathStore
