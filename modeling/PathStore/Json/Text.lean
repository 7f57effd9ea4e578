import PathStore.Binary64.Layout
import PathStore.Json.Basic
import PathStore.Text.Hex

/-!
# The compact text of a value

The text has no blanks.  A string escapes the quote, the backslash and the control characters and
nothing else.  An integer is written in decimal; a double-precision number is written so that it is
one again when read, with a fractional digit or an exponent.
-/

namespace PathStore.Json

/-- Magnitudes from `10 ^ -5` to below `10 ^ 16` are positional, a whole number ends in `.0`, and a
tie goes to the even decimal. -/
def numberLayout : DecimalLayout := ⟨.toEven, some (-5, 15), true⟩

def integerText (i : Int) : List Char :=
  if i < 0 then '-' :: Nat.toDigits 10 i.natAbs else Nat.toDigits 10 i.natAbs

def Number.text : Number → List Char
  | .integer i => integerText i
  | .double x => numberLayout.text x

/-- One character inside a string. -/
def escapedChar (c : Char) : List Char :=
  if c = '"' then ['\\', '"']
  else if c = '\\' then ['\\', '\\']
  else if c = '\x08' then ['\\', 'b']
  else if c = '\x0c' then ['\\', 'f']
  else if c = '\n' then ['\\', 'n']
  else if c = '\r' then ['\\', 'r']
  else if c = '\t' then ['\\', 't']
  else if c.toNat < 0x20 then ['\\', 'u'] ++ Hex.fixed 4 c.toNat
  else [c]

def stringText (text : String) : List Char :=
  '"' :: (text.toList.flatMap escapedChar ++ ['"'])

mutual

/-- The compact text of a value. -/
def text : Json → List Char
  | .null => ['n', 'u', 'l', 'l']
  | .bool true => ['t', 'r', 'u', 'e']
  | .bool false => ['f', 'a', 'l', 's', 'e']
  | .number n => n.text
  | .string s => stringText s
  | .array [] => ['[', ']']
  | .array (item :: rest) => '[' :: (item.text ++ itemsText rest)
  | .object [] => ['{', '}']
  | .object ((key, value) :: rest) =>
    '{' :: (stringText key ++ ':' :: (value.text ++ membersText rest))
termination_by structural value => value

def itemsText : List Json → List Char
  | [] => [']']
  | item :: rest => ',' :: (item.text ++ itemsText rest)
termination_by structural items => items

def membersText : List (String × Json) → List Char
  | [] => ['}']
  | (key, value) :: rest => ',' :: (stringText key ++ ':' :: (value.text ++ membersText rest))
termination_by structural members => members

end

def compact (value : Json) : String :=
  String.ofList value.text

def bytes (value : Json) : Bytes :=
  Utf8.encodeChars value.text

example : (Json.array [.null, .object [("a", .string "\"\n")], .number (.integer (-1))]).compact =
    "[null,\x7b\"a\":\"\\\"\\n\"\x7d,-1]" := by decide +kernel

example : (Json.number (.double (Binary64.ofNat 3))).compact = "3.0" := by decide +kernel

end PathStore.Json
