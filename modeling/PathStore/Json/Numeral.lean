import PathStore.Json.Fault

/-!
# Reading a number

Digits without a point and an exponent are an integer while they fit in 64 bits.  Anything else is a
double-precision number: the digits are gathered in a significand of at most 64 bits, what does not
fit only moves the decimal exponent, and the significand is multiplied or divided by a power of ten.
The significand, the power and their product are each rounded.
-/

namespace PathStore.Json

/-- What reads a value from the front of a byte string and leaves the rest. -/
abbrev Reader (α : Type) := Bytes → Except Fault (α × Bytes)

def isDigit (b : UInt8) : Bool :=
  '0'.toUInt8 ≤ b && b ≤ '9'.toUInt8

def digitValue (b : UInt8) : Nat :=
  b.toNat - '0'.toNat

def skipDigits (rest : Bytes) : Bytes :=
  rest.dropWhile isDigit

def fitsSignificand (significand digit : Nat) : Bool :=
  significand * 10 + digit < Nat.pow 2 64

def largestPower : Nat := 308

/-- The significand divided by powers of ten until the exponent is in reach, in at most `fuel`
steps. -/
def scaledDown : Nat → Binary64 → Int → Binary64 × Int
  | 0, x, e => (x, e)
  | fuel + 1, x, e =>
    if e < -(largestPower : Int) && x.magnitude ≠ 0 then
      scaledDown fuel (x.div (Binary64.ofNat (Nat.pow 10 largestPower))) (e + largestPower)
    else (x, e)

/-- The number `significand · 10 ^ exponent` without its sign; none when it is out of range.  Two
divisions by the greatest power leave nothing of any significand. -/
def scaled? (significand : Nat) (exponent : Int) : Option Binary64 :=
  let (x, e) := scaledDown 2 (Binary64.ofNat significand) exponent
  if x.magnitude = 0 then some x
  else if e < 0 then some (x.div (Binary64.ofNat (Nat.pow 10 e.natAbs)))
  else if (largestPower : Int) < e then none
  else
    let product := x.mul (Binary64.ofNat (Nat.pow 10 e.natAbs))
    if product.isFinite then some product else none

/-- The double-precision number that has been read up to `rest`. -/
def finish (negative : Bool) (significand : Nat) (exponent : Int) : Reader Number := fun rest ↦
  match scaled? significand exponent with
  | some x => .ok (.double (if negative then x.neg else x), rest)
  | none => fail .numberOutOfRange rest

/-- The greatest exponent that is read, and the limit for one combined with digits. -/
def exponentLimit : Nat := Nat.pow 2 31 - 1

/-- The number behind the digits of an exponent; `exponent` is what the digits read so far say. -/
def exponentDigits (negative : Bool) (significand : Nat) (start : Int) (down : Bool)
    (exponent : Nat) : Reader Number
  | [] =>
    finish negative significand
      (if down then max (start - exponent) (-exponentLimit - 1) else min (start + exponent)
        exponentLimit) []
  | b :: rest =>
    if isDigit b then
      if exponentLimit < exponent * 10 + digitValue b then
        if significand ≠ 0 && !down then fail .numberOutOfRange rest
        else .ok (.double (Binary64.zero negative), skipDigits rest)
      else exponentDigits negative significand start down (exponent * 10 + digitValue b) rest
    else
      finish negative significand
        (if down then max (start - exponent) (-exponentLimit - 1) else min (start + exponent)
          exponentLimit) (b :: rest)

/-- The number whose exponent follows; `start` is the exponent that the digits alone say. -/
def exponentPart (negative : Bool) (significand : Nat) (start : Int) : Reader Number := fun rest ↦
  let down := rest.head? = some '-'.toUInt8
  let rest := if down || rest.head? = some '+'.toUInt8 then rest.drop 1 else rest
  match rest with
  | [] => fail .endInValue []
  | b :: rest =>
    if isDigit b then exponentDigits negative significand start down (digitValue b) rest
    else fail .invalidNumber rest

def isExponentMark (b : UInt8) : Bool :=
  b = 'e'.toUInt8 || b = 'E'.toUInt8

def exponentOrEnd (negative : Bool) (significand : Nat) (exponent : Int) : Reader Number
  | [] => finish negative significand exponent []
  | b :: rest =>
    if isExponentMark b then exponentPart negative significand exponent rest
    else finish negative significand exponent (b :: rest)

/-- The number whose digits behind the point follow, of which `count` are read.  Digits that do not
fit are passed over. -/
def fractionDigits (negative : Bool) (significand : Nat) (exponent : Int) (count : Nat) :
    Reader Number
  | [] =>
    if count = 0 then failAtNext .endInValue []
    else exponentOrEnd negative significand (exponent - count) []
  | b :: rest =>
    if isDigit b then
      if fitsSignificand significand (digitValue b) then
        fractionDigits negative (significand * 10 + digitValue b) exponent (count + 1) rest
      else exponentOrEnd negative significand (exponent - count) (skipDigits rest)
    else if count = 0 then failAtNext .invalidNumber (b :: rest)
    else exponentOrEnd negative significand (exponent - count) (b :: rest)

/-- The number whose digits no longer fit the significand: every further one before the point is
passed over and raises the exponent. -/
def longInteger (negative : Bool) (significand exponent : Nat) : Reader Number
  | [] => finish negative significand exponent []
  | b :: rest =>
    if isDigit b then longInteger negative significand (exponent + 1) rest
    else if b = '.'.toUInt8 then fractionDigits negative significand exponent 0 rest
    else exponentOrEnd negative significand exponent (b :: rest)

/-- The integer with this absolute value; a negative one that does not fit, and negative zero, are
double-precision numbers. -/
def integerNumber (negative : Bool) (significand : Nat) : Number :=
  if !negative then .integer significand
  else if significand = 0 || Nat.pow 2 63 < significand then
    .double (Binary64.ofNat significand).neg
  else .integer (-significand)

def integerEnd (negative : Bool) (significand : Nat) : Reader Number
  | [] => .ok (integerNumber negative significand, [])
  | b :: rest =>
    if b = '.'.toUInt8 then fractionDigits negative significand 0 0 rest
    else if isExponentMark b then exponentPart negative significand 0 rest
    else .ok (integerNumber negative significand, b :: rest)

def integerDigits (negative : Bool) (significand : Nat) : Reader Number
  | [] => integerEnd negative significand []
  | b :: rest =>
    if isDigit b then
      if fitsSignificand significand (digitValue b) then
        integerDigits negative (significand * 10 + digitValue b) rest
      else longInteger negative significand 0 (b :: rest)
    else integerEnd negative significand (b :: rest)

/-- The number behind its sign.  No digit may follow a leading zero. -/
def numeral (negative : Bool) : Reader Number
  | [] => fail .endInValue []
  | b :: rest =>
    if b = '0'.toUInt8 then
      if rest.head?.any isDigit then failAtNext .invalidNumber rest
      else integerEnd negative 0 rest
    else if isDigit b then integerDigits negative (digitValue b) rest
    else fail .invalidNumber rest

end PathStore.Json
