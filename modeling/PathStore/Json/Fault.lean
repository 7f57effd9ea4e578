import PathStore.Json.Text
import PathStore.Text.Quotation

/-!
# Why a text cannot be read

A fault is a cause and the place where it showed.  While reading, the place is the number of bytes
not yet read; for a report it becomes the line, counted from one, and the column, which is the
number of bytes read since the line began.  A fault in a text that stands inside another one is
reported with its place in the inner text.
-/

namespace PathStore.Json

inductive Kind where
  | null
  | bool (value : Bool)
  | number (value : Number)
  | string (text : String)
  | sequence
  | map
deriving Repr

def Kind.description : Kind → String
  | .null => "null"
  | .bool value => s!"boolean `{value}`"
  | .number (.integer i) => s!"integer `{String.ofList (integerText i)}`"
  | .number (.double x) => s!"floating point `{String.ofList (Number.double x).text}`"
  | .string text => "string " ++ quotation text
  | .sequence => "sequence"
  | .map => "map"

inductive Cause where
  | endInValue
  | endInList
  | endInObject
  | endInString
  | expectedValue
  | expectedLiteral
  | expectedColon
  | expectedCommaOrBracket
  | expectedCommaOrBrace
  | trailingComma
  | trailingCharacters
  | keyNotString
  | invalidNumber
  | numberOutOfRange
  | invalidEscape
  | unpairedSurrogate
  | unfinishedSurrogatePair
  | controlCharacter
  | notUtf8
  | tooDeep
  | wrongType (found : Kind) (expected : String)
  | wrongValue (found : Kind) (expected : String)
  | wrongLength (length : Nat) (expected : String)
  | missingField (name : String)
  | duplicateField (name : String)
  | unknownVariant (name : String) (known : List String)
deriving Repr

def alternatives : List String → String
  | [] => "nothing"
  | [name] => s!"`{name}`"
  | name :: rest => s!"`{name}` or " ++ alternatives rest

def Cause.message : Cause → String
  | .endInValue => "EOF while parsing a value"
  | .endInList => "EOF while parsing a list"
  | .endInObject => "EOF while parsing an object"
  | .endInString => "EOF while parsing a string"
  | .expectedValue => "expected value"
  | .expectedLiteral => "expected ident"
  | .expectedColon => "expected `:`"
  | .expectedCommaOrBracket => "expected `,` or `]`"
  | .expectedCommaOrBrace => "expected `,` or `\x7d`"
  | .trailingComma => "trailing comma"
  | .trailingCharacters => "trailing characters"
  | .keyNotString => "key must be a string"
  | .invalidNumber => "invalid number"
  | .numberOutOfRange => "number out of range"
  | .invalidEscape => "invalid escape"
  | .unpairedSurrogate => "lone leading surrogate in hex escape"
  | .unfinishedSurrogatePair => "unexpected end of hex escape"
  | .controlCharacter => "control character (\\u0000-\\u001F) found while parsing a string"
  | .notUtf8 => "invalid unicode code point"
  | .tooDeep => "recursion limit exceeded"
  | .wrongType found expected => s!"invalid type: {found.description}, expected {expected}"
  | .wrongValue found expected => s!"invalid value: {found.description}, expected {expected}"
  | .wrongLength length expected => s!"invalid length {length}, expected {expected}"
  | .missingField name => s!"missing field `{name}`"
  | .duplicateField name => s!"duplicate field `{name}`"
  | .unknownVariant name known => s!"unknown variant `{name}`, expected " ++ alternatives known

structure Place where
  line : Nat
  column : Nat
deriving Repr, DecidableEq

/-- The place behind the bytes read. -/
def Place.behind (read : Bytes) : Place :=
  read.foldl (fun place b ↦
    if b = 0x0A then ⟨place.line + 1, 0⟩ else ⟨place.line, place.column + 1⟩) ⟨1, 0⟩

structure ReadError where
  cause : Cause
  place : Place
deriving Repr

/-- Why reading stopped: a cause that showed with so many bytes not yet read, or the report on
another text inside the one that is read. -/
inductive Fault where
  | here (cause : Cause) (unread : Nat)
  | within (error : ReadError)
deriving Repr

/-- A fault that shows with `rest` still to be read. -/
def fail {α : Type} (cause : Cause) (rest : Bytes) : Except Fault α :=
  .error (.here cause rest.length)

/-- A fault that the next byte of `rest` shows: the place lies behind that byte. -/
def failAtNext {α : Type} (cause : Cause) (rest : Bytes) : Except Fault α :=
  .error (.here cause (rest.length - 1))

/-- The fault as a report about the text.  A report on a text inside keeps its own place. -/
def Fault.report (input : Bytes) : Fault → ReadError
  | .here cause unread => ⟨cause, Place.behind (input.take (input.length - unread))⟩
  | .within error => error

def ReadError.message (e : ReadError) : String :=
  s!"{e.cause.message} at line {e.place.line} column {e.place.column}"

end PathStore.Json
