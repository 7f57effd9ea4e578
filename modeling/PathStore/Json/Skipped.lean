import PathStore.Json.Reader

/-!
# Passing over a value

The value of a field that nobody asked for is passed over.  Its form is checked, but not what it
would denote: numbers may be out of range, escapes by number need not form characters, bytes need
not be text, and arrays and objects may be nested to any depth.
-/

namespace PathStore.Json

def skipExponent (rest : Bytes) : Except Fault Bytes :=
  let rest :=
    if rest.head? = some '+'.toUInt8 || rest.head? = some '-'.toUInt8 then rest.drop 1 else rest
  match rest with
  | [] => fail .invalidNumber []
  | b :: rest => if isDigit b then .ok (skipDigits rest) else fail .invalidNumber rest

def skipExponentOrEnd (rest : Bytes) : Except Fault Bytes :=
  match rest with
  | [] => .ok []
  | b :: rest => if isExponentMark b then skipExponent rest else .ok (b :: rest)

def skipFraction (rest : Bytes) : Except Fault Bytes :=
  if rest.head?.any isDigit then skipExponentOrEnd (skipDigits rest)
  else failAtNext .invalidNumber rest

def skipNumeral (rest : Bytes) : Except Fault Bytes :=
  let afterWhole (rest : Bytes) :=
    match rest with
    | [] => .ok []
    | b :: rest => if b = '.'.toUInt8 then skipFraction rest else skipExponentOrEnd (b :: rest)
  match rest with
  | [] => fail .invalidNumber []
  | b :: rest =>
    if b = '0'.toUInt8 then
      if rest.head?.any isDigit then failAtNext .invalidNumber rest else afterWhole rest
    else if isDigit b then afterWhole (skipDigits rest)
    else fail .invalidNumber rest

def skipEscape (rest : Bytes) : Except Fault Bytes :=
  match rest with
  | [] => fail .endInString []
  | letter :: rest =>
    if letter = 'u'.toUInt8 then (fourDigits rest).map (·.2)
    else if (escapedByte? letter).isSome then .ok rest
    else fail .invalidEscape rest

/-- Passes over a string behind its opening quote; a byte string no shorter than the rest is enough
`fuel`. -/
def skipString : Bytes → Bytes → Except Fault Bytes
  | [], rest => fail .endInString rest
  | _ :: _, [] => fail .endInString []
  | _ :: fuel, b :: rest =>
    if b = '"'.toUInt8 then .ok rest
    else if b = '\\'.toUInt8 then
      match skipEscape rest with
      | .ok rest => skipString fuel rest
      | .error fault => .error fault
    else if b < 0x20 then fail .controlCharacter (b :: rest)
    else skipString fuel rest

def skipScalar (b : UInt8) (rest : Bytes) : Except Fault Bytes :=
  if b = 'n'.toUInt8 then literal ['u', 'l', 'l'] rest
  else if b = 't'.toUInt8 then literal ['r', 'u', 'e'] rest
  else if b = 'f'.toUInt8 then literal ['a', 'l', 's', 'e'] rest
  else if b = '-'.toUInt8 then skipNumeral rest
  else if isDigit b then skipNumeral (b :: rest)
  else if b = '"'.toUInt8 then skipString rest rest
  else failAtNext .expectedValue (b :: rest)

inductive Frame where
  | array
  | object
deriving DecidableEq

namespace Frame

def closing : Frame → UInt8
  | .array => ']'.toUInt8
  | .object => '}'.toUInt8

def endCause : Frame → Cause
  | .array => .endInList
  | .object => .endInObject

def commaCause : Frame → Cause
  | .array => .expectedCommaOrBracket
  | .object => .expectedCommaOrBrace

/-- Passes over what stands before the next value: in an object, the key and the colon. -/
def skipKey (frame : Frame) (rest : Bytes) : Except Fault Bytes :=
  match frame with
  | .array => .ok rest
  | .object =>
    match skipBlanks rest with
    | [] => fail .endInObject []
    | b :: rest =>
      if b = '"'.toUInt8 then do colon (← skipString rest rest)
      else failAtNext .keyNotString (b :: rest)

end Frame

mutual

/-- Passes over a value and then over all that is still open. -/
def skipValueIn : Nat → List Frame → Bytes → Except Fault Bytes
  | 0, _, rest => fail .endInValue rest
  | fuel + 1, frames, rest =>
    match skipBlanks rest with
    | [] => fail .endInValue []
    | b :: rest =>
      if b = '['.toUInt8 then skipRest fuel true (.array :: frames) rest
      else if b = '{'.toUInt8 then skipRest fuel true (.object :: frames) rest
      else
        match skipScalar b rest with
        | .ok rest => skipRest fuel false frames rest
        | .error fault => .error fault

/-- Passes over all that is still open, `first` telling that the innermost one has just begun. -/
def skipRest : Nat → Bool → List Frame → Bytes → Except Fault Bytes
  | 0, _, _, rest => fail .endInValue rest
  | _ + 1, _, [], rest => .ok rest
  | fuel + 1, first, frame :: frames, rest =>
    match skipBlanks rest with
    | [] => fail frame.endCause []
    | b :: rest =>
      if b = ','.toUInt8 && !first then
        match frame.skipKey rest with
        | .ok rest => skipValueIn fuel (frame :: frames) rest
        | .error fault => .error fault
      else if b = frame.closing then skipRest fuel false frames rest
      else if first then
        match frame.skipKey (b :: rest) with
        | .ok rest => skipValueIn fuel (frame :: frames) rest
        | .error fault => .error fault
      else failAtNext frame.commaCause (b :: rest)

end

/-- Passes over a value.  A byte is behind every second step at least. -/
def skipValue (rest : Bytes) : Except Fault Bytes :=
  skipValueIn (2 * rest.length + 2) [] rest

end PathStore.Json
