import PathStore.Text.CharacterClasses
import PathStore.Text.Split

/-!
# A cursor over the text of a query

A cursor knows how many characters of the text lie behind it and which ones lie ahead.  An operand
is a word of letters, digits and dots, or any text between double quotes, in which nothing is
escaped.  A cursor that cannot read an operand stays where it is, but one that misses the closing
quote has gone to the end of the text.
-/

namespace PathStore

/-- A place in the text of a query. -/
structure Cursor where
  /-- How many characters lie behind. -/
  position : Nat
  /-- The characters ahead. -/
  rest : List Char
deriving Repr, DecidableEq

/-- A key or a value as it is written. -/
inductive Operand where
  /-- Letters, digits and dots. -/
  | word (text : List Char)
  /-- The text between two quotes. -/
  | quoted (text : List Char)
deriving Repr, DecidableEq

def Operand.text : Operand → String
  | .word text | .quoted text => String.ofList text

/-- Why no operand can be read, and at which position. -/
inductive OperandError where
  | endOfInput (position : Nat)
  | unexpected (found : Char) (position : Nat)
  /-- The opening quote is at the position. -/
  | unterminated (position : Nat)
deriving Repr, DecidableEq

namespace OperandError

def position : OperandError → Nat
  | .endOfInput position | .unexpected _ position | .unterminated position => position

def message : OperandError → String
  | .endOfInput position => s!"unexpected end of input at position {position}"
  | .unexpected found position =>
    s!"unexpected character '{String.singleton found}' at position {position}"
  | .unterminated position => s!"unterminated quoted string starting at position {position}"

end OperandError

def isWordChar (c : Char) : Bool :=
  isAlphanumeric c || c = '.'

namespace Cursor

def start (text : String) : Cursor :=
  ⟨0, text.toList⟩

def current? (cursor : Cursor) : Option Char :=
  cursor.rest.head?

def atEnd (cursor : Cursor) : Bool :=
  cursor.rest.isEmpty

def atBlank (cursor : Cursor) : Bool :=
  cursor.rest.head?.any isBlank

def advance (cursor : Cursor) (count : Nat) : Cursor :=
  ⟨cursor.position + count, cursor.rest.drop count⟩

def skipBlanks (cursor : Cursor) : Cursor :=
  cursor.advance (cursor.rest.takeWhile isBlank).length

/-- Moves over the expected character, if it is the next one. -/
def eat? (expected : Char) (cursor : Cursor) : Option Cursor :=
  match cursor.rest with
  | c :: rest => if c = expected then some ⟨cursor.position + 1, rest⟩ else none
  | [] => none

def operand (cursor : Cursor) : Except OperandError Operand × Cursor :=
  match cursor.rest with
  | [] => (.error (.endOfInput cursor.position), cursor)
  | c :: rest =>
    if c = '"' then
      let text := rest.takeWhile (· ≠ '"')
      if text.length = rest.length then
        (.error (.unterminated cursor.position), cursor.advance (text.length + 1))
      else (.ok (.quoted text), cursor.advance (text.length + 2))
    else if isWordChar c then
      let text := (c :: rest).takeWhile isWordChar
      (.ok (.word text), cursor.advance text.length)
    else (.error (.unexpected c cursor.position), cursor)

end Cursor

example : (Cursor.start "\"a b\":1").operand =
    (.ok (.quoted "a b".toList), ⟨5, ":1".toList⟩) := by rfl

end PathStore
