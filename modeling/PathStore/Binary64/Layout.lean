import PathStore.Binary64.Shortest

/-!
# Decimal texts of a number

A layout fixes how the shortest decimal of a number is written: which magnitudes are written
positionally, whether a whole number shows a fractional digit, and where a tie between two shortest
decimals goes.  A magnitude outside the positional range has one digit before the point and a signed
exponent.
-/

namespace PathStore

/-- How the shortest decimal of a number is laid out. -/
structure DecimalLayout where
  tie : Tie
  /-- The leading exponents written positionally, all of them when there is no range. -/
  positional : Option (Int × Int)
  /-- Whether a whole number ends in `.0`. -/
  showsFraction : Bool

namespace DecimalLayout

def isPositional (layout : DecimalLayout) (leading : Int) : Bool :=
  match layout.positional with
  | none => true
  | some (lowest, highest) => lowest ≤ leading && leading ≤ highest

def wholeEnd (layout : DecimalLayout) : List Char :=
  if layout.showsFraction then ['.', '0'] else []

/-- Digits with the point placed by the exponent of the leading one. -/
def positionalText (layout : DecimalLayout) (digits : List Char) (leading : Int) : List Char :=
  if leading < 0 then
    '0' :: '.' :: List.replicate (-leading - 1).toNat '0' ++ digits
  else
    let whole := leading.toNat + 1
    if digits.length ≤ whole then
      digits ++ List.replicate (whole - digits.length) '0' ++ layout.wholeEnd
    else
      digits.take whole ++ '.' :: digits.drop whole

/-- One digit before the point, and the exponent of the leading digit with its sign. -/
def exponentText (digits : List Char) (leading : Int) : List Char :=
  let fraction := if digits.length ≤ 1 then [] else '.' :: digits.drop 1
  digits.take 1 ++ fraction ++ ['e', if leading < 0 then '-' else '+'] ++
    Nat.toDigits 10 leading.natAbs

def magnitudeText (layout : DecimalLayout) (x : Binary64) : List Char :=
  if x.magnitude = 0 then '0' :: layout.wholeEnd
  else
    let decimal := x.shortest layout.tie
    let digits := Nat.toDigits 10 decimal.coefficient
    let leading := decimal.exponent + (digits.length - 1 : Nat)
    if layout.isPositional leading then layout.positionalText digits leading
    else exponentText digits leading

def text (layout : DecimalLayout) (x : Binary64) : List Char :=
  if x.isNegative then '-' :: layout.magnitudeText x else layout.magnitudeText x

/-- Positional throughout, a whole number without a fraction; a tie goes up. -/
def plain : DecimalLayout := ⟨.up, none, false⟩

example : plain.text (Binary64.round true 5 2) = "-2.5".toList := by decide +kernel

example : plain.text (Binary64.ofNat (10 ^ 21)) = "1000000000000000000000".toList := by
  decide +kernel

example : plain.text (Binary64.round false 1 (10 ^ 7)) = "0.0000001".toList := by decide +kernel

end DecimalLayout

end PathStore
