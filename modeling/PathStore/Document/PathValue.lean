import PathStore.Binary64.Reading
import PathStore.Json.Text
import PathStore.Ordered.Set

/-!
# Paths, renderings and path-values

A path is the list of keys from the root of a document to a value inside it.  Only objects have
members, so a path that goes on behind a scalar or an array leads nowhere.  A value is indexed and
compared under its rendering: the string `"4"` and the number `4` have one rendering, and so have
`3.0` and `3`.  In an order comparison it counts by its numeric reading, which numbers have and
strings that read as a number.  A path-value is a path joined by dots, an equals sign and the
rendering of a value.  The path-values of a document are those of its scalars outside arrays;
different paths may be joined to the same text when keys hold dots or equals signs.
-/

namespace PathStore

/-- The keys from the root of a document to a value, the outermost first. -/
abbrev Path := List String

def Json.descend? (value : Json) : Path → Option Json
  | [] => some value
  | key :: rest =>
    match value with
    | .object members =>
      match Entries.get? members key with
      | some member => member.descend? rest
      | none => none
    | _ => none

namespace Document

def resolve? (document : Document) (path : Path) : Option Json :=
  if path.isEmpty then none else (Json.object document).descend? path

example : resolve? [("a", .object [("b", .null)])] ["a", "b"] = some .null := rfl

example : resolve? [("a", .array [.null])] ["a", "0"] = none := rfl

end Document

namespace Json

/-- The text under which a value is indexed and compared. -/
def rendering : Json → String
  | .null => "null"
  | .bool true => "true"
  | .bool false => "false"
  | .number (.integer i) => String.ofList (integerText i)
  | .number (.double x) => String.ofList (DecimalLayout.plain.text x)
  | .string text => text
  | value => value.compact

def numeric? : Json → Option Binary64
  | .number (.integer i) => some (Binary64.ofInt i)
  | .number (.double x) => some x
  | .string text => Binary64.ofText? text
  | _ => none

def isCompound : Json → Bool
  | .array _ | .object _ => true
  | _ => false

example : (Json.number (.double (Binary64.ofNat 3))).rendering = "3" := by decide +kernel

end Json

def pathValue (path : Path) (value : String) : String :=
  ".".intercalate path ++ "=" ++ value

/-- The joined path of a member below another joined path; the root has the empty one. -/
def memberPath (above key : String) : String :=
  if above.isEmpty then key else above ++ "." ++ key

mutual

/-- The path-values of a value with this joined path, in the order of its members. -/
def Json.pathValues (path : String) : Json → List String
  | .object members => memberPathValues path members
  | .array _ => []
  | scalar => [path ++ "=" ++ scalar.rendering]
termination_by structural value => value

/-- The path-values of the members of an object with this joined path. -/
def memberPathValues (above : String) : List (String × Json) → List String
  | [] => []
  | (key, value) :: rest =>
    value.pathValues (memberPath above key) ++ memberPathValues above rest
termination_by structural members => members

end

def Document.pathValues (document : Document) : OrderedSet String :=
  OrderedSet.ofList (memberPathValues "" document)

example :
    (Document.pathValues
      [("a", .object [("b", .bool true), ("c", .array [.null])]), ("d", .string "x")]).toList =
    ["a.b=true", "d=x"] := by decide +kernel

end PathStore
