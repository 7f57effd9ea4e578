import PathStore.Binary64.Basic

/-!
# The shortest decimal of a number

Every finite number is the rounding of all reals in an interval around it, whose ends belong to it
when its significand is even.  Its shortest decimal is the one with the fewest digits in that
interval, and of several such the one nearest to the number.  It is found on the decimal grids from
the coarsest on: when a grid has a point in the interval, one of the two neighbours of the number on
that grid lies there.  All comparisons are between natural numbers.
-/

namespace PathStore

structure Decimal where
  coefficient : Nat
  exponent : Int
deriving Repr, DecidableEq

inductive Tie where
  | toEven
  | up
deriving Repr, DecidableEq

namespace Decimal

def digitCount (n : Nat) : Nat :=
  if n = 0 then 0 else (Nat.toDigits 10 n).length

/-- The same decimal without zeros at the end of the coefficient, of which there are at most
`fuel`. -/
def trim : Nat → Decimal → Decimal
  | 0, d => d
  | fuel + 1, d =>
    if d.coefficient % 10 = 0 then trim fuel ⟨d.coefficient / 10, d.exponent + 1⟩ else d

end Decimal

namespace Binary64

/-- The reals that round to a number, in units of `2 ^ power`. -/
structure Interval where
  low : Nat
  value : Nat
  high : Nat
  power : Int
  /-- Whether the two ends round to the number as well. -/
  closed : Bool

/-- The interval of a finite number.  Below a power of two the next number is nearer by half. -/
def interval (x : Binary64) : Interval :=
  let s := x.significand
  { low := 4 * s - if x.fraction = 0 && 1 < x.exponentField then 1 else 2
    value := 4 * s
    high := 4 * s + 2
    power := x.exponent - 2
    closed := s % 2 = 0 }

namespace Interval

/-- The numerators of the three points and their common denominator, in units of `10 ^ e`. -/
def scaled (i : Interval) (e : Int) : Nat × Nat × Nat × Nat :=
  let up := Nat.pow 2 i.power.toNat * Nat.pow 10 (-e).toNat
  (i.low * up, i.value * up, i.high * up, Nat.pow 2 (-i.power).toNat * Nat.pow 10 e.toNat)

def leadingExponent (i : Interval) : Int :=
  let (num, den) := shifted i.value 1 i.power
  if den ≤ num then (Decimal.digitCount (num / den) : Int) - 1
  else -(Decimal.digitCount ((den + num - 1) / num - 1) : Int)

/-- The better of the two neighbours of the number on the grid of multiples of `10 ^ e`, if one of
them lies in the interval. -/
def nearestOnGrid? (tie : Tie) (i : Interval) (e : Int) : Option Nat :=
  let (low, value, high, den) := i.scaled e
  let below := value / den
  let above := below + 1
  let belowFits := low < below * den || (i.closed && low = below * den)
  let aboveFits := above * den < high || (i.closed && above * den = high)
  let twice := 2 * (value % den)
  let nearerAbove := twice > den || (twice = den && (tie = .up || below % 2 = 1))
  if belowFits && aboveFits then some (if nearerAbove then above else below)
  else if belowFits then some below
  else if aboveFits then some above
  else none

/-- The shortest decimal, searched from the grid of `10 ^ e` on in at most `fuel` finer steps. -/
def shortestFrom (tie : Tie) (i : Interval) : Nat → Int → Decimal
  | 0, e => ⟨(i.nearestOnGrid? tie e).getD 0, e⟩
  | fuel + 1, e =>
    match i.nearestOnGrid? tie e with
    | some coefficient => ⟨coefficient, e⟩
    | none => shortestFrom tie i fuel (e - 1)

end Interval

/-- The shortest decimal that rounds to a finite number other than zero, without zeros at its end.
Seventeen digits are always enough. -/
def shortest (tie : Tie) (x : Binary64) : Decimal :=
  (x.interval.shortestFrom tie 16 x.interval.leadingExponent).trim 17

example : (round false 1 10).shortest .toEven = ⟨1, -1⟩ := by decide +kernel

example : (ofMagnitude false 1).shortest .toEven = ⟨5, -324⟩ := by decide +kernel

example : (ofNat (10 ^ 23)).shortest .toEven = ⟨1, 23⟩ := by decide +kernel

example : (round false 4503599627370497 4).shortest .toEven = ⟨11258999068426242, -1⟩ := by
  decide +kernel

end Binary64

end PathStore
