import PathStore.Binary64.Basic
import PathStore.Ordered.Map

/-!
# JSON values

A JSON value is a tree, and an object is the list of its members.  In a canonical value the keys of
every object ascend strictly, and whatever is read from text is canonical; the type itself does not
ask for it, since a response is written in the order of its fields.  A number is an integer or a
double-precision number, and the two are never the same value.
-/

namespace PathStore

inductive Json.Number where
  | integer (value : Int)
  | double (value : Binary64)
deriving Repr, DecidableEq

inductive Json where
  | null
  | bool (value : Bool)
  | number (value : Json.Number)
  | string (text : String)
  | array (items : List Json)
  | object (members : List (String × Json))
deriving Repr, Inhabited

abbrev Document := List (String × Json)

namespace Json

def asDocument? : Json → Option Document
  | .object members => some members
  | _ => none

theorem asDocument?_eq_some_iff {value : Json} {document : Document} :
    value.asDocument? = some document ↔ value = .object document := by
  cases value <;> simp [asDocument?]

def isDocument (value : Json) : Bool :=
  value.asDocument?.isSome

/-- The key by which an object in a text stands for the value of another text: that text is the
string behind the key. -/
def textMark : String := "$serde_json::private::RawValue"

def isMarked (members : Document) : Bool :=
  members.head?.any (·.1 = textMark)

end Json

end PathStore
