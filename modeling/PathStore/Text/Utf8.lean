/-!
# UTF-8

Text is a list of characters and stored text a list of bytes.  Reading cuts a byte string into
pieces: a piece is a character, a sequence that no further byte can complete, or the beginning of a
character at the very end.  The strict reader refuses at the first piece that is not a character and
says where it lies; the lenient reader puts the replacement character in its place.  A malformed
piece is as short as possible: it ends before the first byte that cannot follow.
-/

namespace PathStore

abbrev Bytes := List UInt8

namespace Utf8

/-- A continuation byte carrying the lowest six bits of `n`. -/
def continuation (n : Nat) : UInt8 :=
  UInt8.ofNat (0x80 + n % 0x40)

def encodeChar (c : Char) : Bytes :=
  let n := c.toNat
  if n < 0x80 then
    [UInt8.ofNat n]
  else if n < 0x800 then
    [UInt8.ofNat (0xC0 + n / 0x40), continuation n]
  else if n < 0x10000 then
    [UInt8.ofNat (0xE0 + n / 0x1000), continuation (n / 0x40), continuation n]
  else
    [UInt8.ofNat (0xF0 + n / 0x40000), continuation (n / 0x1000), continuation (n / 0x40),
      continuation n]

def encodeChars (text : List Char) : Bytes :=
  text.flatMap encodeChar

def encode (text : String) : Bytes :=
  encodeChars text.toList

/-- What a byte string is cut into. -/
inductive Piece where
  /-- A character in its proper bytes. -/
  | char (c : Char)
  /-- A sequence of `length` bytes that the next byte cannot follow. -/
  | malformed (length : Nat)
  /-- The beginning of a character, cut off by the end after `length` bytes. -/
  | truncated (length : Nat)
deriving Repr, DecidableEq

/-- How many bytes a character has that begins with this byte; zero when none does. -/
def width (lead : UInt8) : Nat :=
  if lead < 0x80 then 1
  else if lead < 0xC2 then 0
  else if lead < 0xE0 then 2
  else if lead < 0xF0 then 3
  else if lead < 0xF5 then 4
  else 0

def isContinuation (b : UInt8) : Bool :=
  0x80 ≤ b && b < 0xC0

/-- Whether `b` may come second after `lead`: a longer form of a short character, a surrogate and a
number above the last character are refused here. -/
def isSecond (lead b : UInt8) : Bool :=
  if lead = 0xE0 then 0xA0 ≤ b && b < 0xC0
  else if lead = 0xED then 0x80 ≤ b && b < 0xA0
  else if lead = 0xF0 then 0x90 ≤ b && b < 0xC0
  else if lead = 0xF4 then 0x80 ≤ b && b < 0x90
  else isContinuation b

/-- The number that `bits` and the six bits of a continuation byte form together. -/
def extend (bits : Nat) (b : UInt8) : Nat :=
  bits * 0x40 + b.toNat % 0x40

/-- The pieces of a byte string, put behind those in `done`, which are in reverse order. -/
def piecesAfter (done : List Piece) : Bytes → List Piece
  | [] => done.reverse
  | lead :: rest =>
    match width lead with
    | 1 => piecesAfter (.char (Char.ofNat lead.toNat) :: done) rest
    | 2 =>
      match rest with
      | [] => (Piece.truncated 1 :: done).reverse
      | b :: rest' =>
        if isSecond lead b then
          piecesAfter (.char (Char.ofNat (extend (lead.toNat % 0x20) b)) :: done) rest'
        else piecesAfter (.malformed 1 :: done) (b :: rest')
    | 3 =>
      match rest with
      | [] => (Piece.truncated 1 :: done).reverse
      | b :: rest' =>
        if isSecond lead b then
          match rest' with
          | [] => (Piece.truncated 2 :: done).reverse
          | c :: rest'' =>
            if isContinuation c then
              piecesAfter
                (.char (Char.ofNat (extend (extend (lead.toNat % 0x10) b) c)) :: done) rest''
            else piecesAfter (.malformed 2 :: done) (c :: rest'')
        else piecesAfter (.malformed 1 :: done) (b :: rest')
    | 4 =>
      match rest with
      | [] => (Piece.truncated 1 :: done).reverse
      | b :: rest' =>
        if isSecond lead b then
          match rest' with
          | [] => (Piece.truncated 2 :: done).reverse
          | c :: rest'' =>
            if isContinuation c then
              match rest'' with
              | [] => (Piece.truncated 3 :: done).reverse
              | d :: rest''' =>
                if isContinuation d then
                  piecesAfter
                    (.char (Char.ofNat (extend (extend (extend (lead.toNat % 0x08) b) c) d))
                      :: done) rest'''
                else piecesAfter (.malformed 3 :: done) (d :: rest''')
            else piecesAfter (.malformed 2 :: done) (c :: rest'')
        else piecesAfter (.malformed 1 :: done) (b :: rest')
    | _ => piecesAfter (.malformed 1 :: done) rest

def pieces (bytes : Bytes) : List Piece :=
  piecesAfter [] bytes

inductive Fault where
  /-- The `length` bytes from `index` on begin no character. -/
  | invalid (length index : Nat)
  /-- The text ends inside the character that begins at `index`. -/
  | incomplete (index : Nat)
deriving Repr, DecidableEq

def Fault.message : Fault → String
  | .invalid length index => s!"invalid utf-8 sequence of {length} bytes from index {index}"
  | .incomplete index => s!"incomplete utf-8 byte sequence from index {index}"

/-- How many bytes lie before a fault. -/
def Fault.index : Fault → Nat
  | .invalid _ index | .incomplete index => index

/-- The characters of the pieces, read strictly: `index` bytes lie before the first piece, and
`done` holds the characters read, in reverse order. -/
def strictAfter (index : Nat) (done : List Char) : List Piece → Except Fault (List Char)
  | [] => .ok done.reverse
  | .char c :: rest => strictAfter (index + (encodeChar c).length) (c :: done) rest
  | .malformed length :: _ => .error (.invalid length index)
  | .truncated _ :: _ => .error (.incomplete index)

def decodeChars (bytes : Bytes) : Except Fault (List Char) :=
  strictAfter 0 [] (pieces bytes)

def decode (bytes : Bytes) : Except Fault String :=
  (decodeChars bytes).map String.ofList

/-- What is left of a byte string from its first fault on; nothing when it is text. -/
def fromFault (bytes : Bytes) : Bytes :=
  match decodeChars bytes with
  | .ok _ => []
  | .error fault => bytes.drop fault.index

/-- The character that stands for a piece. -/
def Piece.orReplacement : Piece → Char
  | .char c => c
  | .malformed _ | .truncated _ => '\ufffd'

/-- The text of a byte string with the replacement character for every piece that is none. -/
def decodeLossy (bytes : Bytes) : String :=
  String.ofList ((pieces bytes).map Piece.orReplacement)

example : encode "aé€😀" = [0x61, 0xC3, 0xA9, 0xE2, 0x82, 0xAC, 0xF0, 0x9F, 0x98, 0x80] := by decide

example : decodeChars [0x61, 0xE2, 0x82, 0xAC] = .ok ['a', '€'] := rfl

example : decodeChars [0x61, 0xED, 0xA0, 0x80] = .error (.invalid 1 1) := rfl

example : decodeChars [0x61, 0xF0, 0x9F] = .error (.incomplete 1) := rfl

end Utf8

end PathStore
