import PathStore.Query.Basic
import PathStore.Query.Cursor

/-!
# Reading a query

The text of a query holds comparisons with white space between them.  A comparison is a key, a
colon, possibly `>` or `<`, and a value, with nothing in between.  A key that is a word is split at
every dot; a quoted key is one segment.  The first character that cannot go on makes the whole text
unreadable, and the error tells where it stands.
-/

namespace PathStore

inductive QueryError where
  | key (error : OperandError)
  | value (error : OperandError)
  /-- The characters ahead do not begin with a colon. -/
  | missingColon (position : Nat) (rest : List Char)
  /-- The characters ahead do not begin with white space. -/
  | missingBlank (position : Nat) (rest : List Char)
deriving Repr, DecidableEq

namespace QueryError

/-- The number of characters before the one that cannot go on, or before an open quote. -/
def position : QueryError → Nat
  | .key error | .value error => error.position
  | .missingColon position _ | .missingBlank position _ => position

def message : QueryError → String
  | .key error => "expected valid key: " ++ error.message
  | .value error => "expected valid value: " ++ error.message
  | .missingColon position rest =>
    s!"expected ':' at position {position}, found `{String.ofList rest}`"
  | .missingBlank position rest =>
    s!"expected whitespace between comparisons at position {position}, found `{String.ofList rest}`"

end QueryError

def Operand.path : Operand → Path
  | .word text => (splitAtEach '.' text).map String.ofList
  | .quoted text => [String.ofList text]

namespace Cursor

/-- Moves over the sign of a range; without one the comparison is an equality. -/
def operator (cursor : Cursor) : Operator × Cursor :=
  match cursor.eat? '>' with
  | some cursor => (.greater, cursor)
  | none =>
    match cursor.eat? '<' with
    | some cursor => (.less, cursor)
    | none => (.equal, cursor)

def comparison (cursor : Cursor) : Except QueryError (Comparison × Cursor) :=
  match cursor.operand with
  | (.error error, _) => .error (.key error)
  | (.ok key, cursor) =>
    match cursor.eat? ':' with
    | none => .error (.missingColon cursor.position cursor.rest)
    | some cursor =>
      let (operator, cursor) := cursor.operator
      match cursor.operand with
      | (.error error, _) => .error (.value error)
      | (.ok value, cursor) => .ok (⟨key.path, operator, value.text⟩, cursor)

/-- The comparisons ahead, up to the end of the text.  Each of them uses up at least one character,
so a list no shorter than the characters ahead is enough `fuel`. -/
def comparisons : List Char → Cursor → Except QueryError Query
  | [], _ => .ok []
  | _ :: fuel, cursor =>
    let cursor := cursor.skipBlanks
    if cursor.atEnd then .ok []
    else
      match cursor.comparison with
      | .error error => .error error
      | .ok (comparison, cursor) =>
        if cursor.atEnd || cursor.atBlank then (comparisons fuel cursor).map (comparison :: ·)
        else .error (.missingBlank cursor.position cursor.rest)

end Cursor

namespace Query

def parse (text : String) : Except QueryError Query :=
  (Cursor.start text).comparisons text.toList

example : parse "a.b:1  \"c d\":>\"2\"" =
    .ok [⟨["a", "b"], .equal, "1"⟩, ⟨["c d"], .greater, "2"⟩] := by rfl

example : parse "a 1" = .error (.missingColon 1 [' ', '1']) := by rfl

end Query

end PathStore
