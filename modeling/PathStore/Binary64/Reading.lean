import PathStore.Binary64.Basic

/-!
# Reading a number from text

The text of a number is an optional sign followed by the word `inf`, `infinity` or `nan` in any
case, or by digits with at most one point among them, at least one digit, and an optional exponent.
The number read is the nearest one, infinity where the text lies above all of them.  Two bounds keep
the work in proportion to the text: an exponent takes no further digit once it has reached
`exponentBound`, and of the digits behind the first `significantDigits` ones it matters only whether
any is not zero, since the boundary between what is read as one number and as the next has fewer
significant digits than that.
-/

namespace PathStore.Binary64

def splitSign : List Char → Bool × List Char
  | '-' :: rest => (true, rest)
  | '+' :: rest => (false, rest)
  | rest => (false, rest)

def digitsValue (digits : List Char) : Nat :=
  digits.foldl (fun n c ↦ n * 10 + (c.toNat - 0x30)) 0

def significantDigits : Nat := 800

/-- A number and the number of zeros to put behind it, which together lie on the same side of every
boundary as the number written by the digits. -/
def condensed (digits : List Char) : Nat × Nat :=
  let digits := digits.dropWhile (· = '0')
  let first := digits.take significantDigits
  let rest := digits.drop significantDigits
  if rest.any (· ≠ '0') then (digitsValue (first ++ ['1']), rest.length - 1)
  else (digitsValue first, rest.length)

def exponentBound : Nat := Nat.pow 2 16

/-- The number written by the digits of an exponent, up to the one with which it reaches the
bound. -/
def exponentMagnitude (digits : List Char) : Nat :=
  digits.foldl (fun n c ↦ if n < exponentBound then n * 10 + (c.toNat - 0x30) else n) 0

/-- The exponent that follows the digits: zero for an empty text. -/
def exponentValue? : List Char → Option Int
  | [] => some 0
  | mark :: rest =>
    let (negative, digits) := splitSign rest
    if (mark = 'e' || mark = 'E') && !digits.isEmpty && digits.all Char.isDigit then
      some (if negative then -(exponentMagnitude digits : Int) else exponentMagnitude digits)
    else none

/-- The number nearest to `coefficient · 10 ^ exponent`.  Beyond the powers that a number can reach
the answer is known without computing them. -/
def ofDecimal (negative : Bool) (coefficient : Nat) (exponent : Int) : Binary64 :=
  let leading := exponent + (Nat.toDigits 10 coefficient).length
  if coefficient = 0 || leading < -400 then zero negative
  else if 400 < leading then infinity negative
  else round negative (coefficient * Nat.pow 10 exponent.toNat) (Nat.pow 10 (-exponent).toNat)

/-- The number that a text without sign begins: digits, an optional point, an optional exponent. -/
def ofUnsignedText? (negative : Bool) (text : List Char) : Option Binary64 :=
  let whole := text.takeWhile Char.isDigit
  let afterWhole := text.drop whole.length
  let fraction :=
    match afterWhole with
    | '.' :: rest => rest.takeWhile Char.isDigit
    | _ => []
  let afterFraction :=
    match afterWhole with
    | '.' :: rest => rest.drop fraction.length
    | rest => rest
  let digits := whole ++ fraction
  if digits.isEmpty then none
  else
    let (coefficient, zeros) := condensed digits
    (exponentValue? afterFraction).map fun e ↦
      ofDecimal negative coefficient (e + zeros - fraction.length)

def ofText? (text : String) : Option Binary64 :=
  let (negative, rest) := splitSign text.toList
  let word := rest.map Char.toLower
  if word = "inf".toList || word = "infinity".toList then some (infinity negative)
  else if word = "nan".toList then some nan
  else ofUnsignedText? negative rest

example : ofText? "12.25" = some ⟨0x4028800000000000⟩ := by decide +kernel

example : ofText? "-.5e-3" = some ⟨0xBF40624DD2F1A9FC⟩ := by decide +kernel

example : ofText? "-INF" = some (infinity true) := by decide +kernel

example : exponentMagnitude "655361".toList = 65536 := by decide +kernel

example : condensed ("00".toList ++ List.replicate 800 '2' ++ "003".toList) =
    (digitsValue (List.replicate 800 '2' ++ ['1']), 2) := by decide +kernel

example : ["", ".", "+", "e5", "1e", "1e+", " 1", "1.2.", "0x1", "infin"].all
    (fun t ↦ (ofText? t).isNone) = true := by decide +kernel

end PathStore.Binary64
