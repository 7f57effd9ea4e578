import PathStore.Json.Numeral

/-!
# Reading a string

Behind the opening quote a string goes on to the next quote that is not escaped.  Its bytes must be
UTF-8, which is looked at only when the closing quote has been read, with every escape replaced by
what it stands for.  The place of the fault is then found by counting back from the end of the
string as many bytes as follow the last good character.  An escape by number stands for one UTF-16
unit, so characters outside the basic plane take a pair of them.
-/

namespace PathStore.Json

def escapedByte? (letter : UInt8) : Option UInt8 :=
  if letter = '"'.toUInt8 || letter = '\\'.toUInt8 || letter = '/'.toUInt8 then some letter
  else if letter = 'b'.toUInt8 then some 0x08
  else if letter = 'f'.toUInt8 then some 0x0C
  else if letter = 'n'.toUInt8 then some 0x0A
  else if letter = 'r'.toUInt8 then some 0x0D
  else if letter = 't'.toUInt8 then some 0x09
  else none

def fourDigits : Reader Nat
  | a :: b :: c :: d :: rest =>
    match Hex.value? [a, b, c, d] with
    | some n => .ok (n, rest)
    | none => fail .invalidEscape rest
  | _ => fail .endInString []

def isHighSurrogate (n : Nat) : Bool :=
  0xD800 ≤ n && n ≤ 0xDBFF

def isLowSurrogate (n : Nat) : Bool :=
  0xDC00 ≤ n && n ≤ 0xDFFF

def lowSurrogate : Reader Nat
  | [] => fail .endInString []
  | b :: rest =>
    if b = '\\'.toUInt8 then
      match rest with
      | [] => fail .endInString []
      | u :: rest =>
        if u = 'u'.toUInt8 then do
          let (low, rest) ← fourDigits rest
          if isLowSurrogate low then .ok (low, rest) else fail .unpairedSurrogate rest
        else fail .unfinishedSurrogatePair rest
    else fail .unfinishedSurrogatePair rest

/-- The character of an escape by number, from its digits on. -/
def numberedChar : Reader Char := fun rest ↦ do
  let (n, rest) ← fourDigits rest
  if isLowSurrogate n then fail .unpairedSurrogate rest
  else if isHighSurrogate n then
    let (low, rest) ← lowSurrogate rest
    .ok (Char.ofNat (0x10000 + (n - 0xD800) * 0x400 + (low - 0xDC00)), rest)
  else .ok (Char.ofNat n, rest)

/-- The bytes that an escape stands for, from its letter on. -/
def escape : Reader Bytes
  | [] => fail .endInString []
  | letter :: rest =>
    if letter = 'u'.toUInt8 then do
      let (c, rest) ← numberedChar rest
      .ok (Utf8.encodeChar c, rest)
    else
      match escapedByte? letter with
      | some b => .ok ([b], rest)
      | none => fail .invalidEscape rest

/-- The bytes up to the closing quote, behind those in `done`, which are in reverse order.  Every
step uses up at least one byte, so a byte string no shorter than the rest is enough `fuel`. -/
def stringBytes : Bytes → Bytes → Reader Bytes
  | [], _, rest => fail .endInString rest
  | _ :: _, _, [] => fail .endInString []
  | _ :: fuel, done, b :: rest =>
    if b = '"'.toUInt8 then .ok (done.reverse, rest)
    else if b = '\\'.toUInt8 then
      match escape rest with
      | .ok (bytes, rest) => stringBytes fuel (bytes.reverse ++ done) rest
      | .error fault => .error fault
    else if b < 0x20 then fail .controlCharacter rest
    else stringBytes fuel (b :: done) rest

/-- The string behind its opening quote. -/
def quoted : Reader String := fun rest ↦ do
  let (bytes, after) ← stringBytes rest [] rest
  match Utf8.decode bytes with
  | .ok text => .ok (text, after)
  | .error _ => fail .notUtf8 (Utf8.fromFault bytes ++ after)

end PathStore.Json
