import PathStore.Document.PathValue

/-!
# Queries

A query is a list of comparisons, all of which a document must satisfy; the empty query asks for
nothing.  A comparison relates the value at a path to a text, and fails if the path leads nowhere.
An equality asks for a value with that rendering and can be looked up in an index under its
path-value; it never holds of an array or an object.  The other comparisons are ranges: they compare
numeric readings strictly, and fail when either side has none.
-/

namespace PathStore

/-- How the value at the path relates to the text of a comparison. -/
inductive Operator where
  | equal
  | greater
  | less
deriving Repr, DecidableEq

def Operator.symbol : Operator → String
  | .equal => "="
  | .greater => ">"
  | .less => "<"

structure Comparison where
  key : Path
  operator : Operator
  value : String
deriving Repr, DecidableEq

namespace Comparison

def isEquality (comparison : Comparison) : Bool :=
  comparison.operator = .equal

def isRange (comparison : Comparison) : Bool :=
  !comparison.isEquality

/-- The key joined by dots, the operator and the value. -/
def text (comparison : Comparison) : String :=
  ".".intercalate comparison.key ++ comparison.operator.symbol ++ comparison.value

def pathValue (comparison : Comparison) : String :=
  PathStore.pathValue comparison.key comparison.value

end Comparison

/-- The comparisons that a document must satisfy. -/
abbrev Query := List Comparison

namespace Query

/-- The comparisons that an index can answer. -/
def equalities (query : Query) : List Comparison :=
  query.filter (·.isEquality)

def ranges (query : Query) : List Comparison :=
  query.filter (·.isRange)

def pathValues (query : Query) : List String :=
  query.equalities.map (·.pathValue)

def hasRange (query : Query) : Bool :=
  !query.ranges.isEmpty

def isIndexed (query : Query) : Bool :=
  !query.equalities.isEmpty

end Query

def Operator.holds (operator : Operator) (value : Json) (text : String) : Bool :=
  match operator with
  | .equal => !value.isCompound && value.rendering = text
  | .greater =>
    match Binary64.ofText? text, value.numeric? with
    | some bound, some x => bound.lt x
    | _, _ => false
  | .less =>
    match Binary64.ofText? text, value.numeric? with
    | some bound, some x => x.lt bound
    | _, _ => false

def Comparison.holdsIn (comparison : Comparison) (document : Document) : Bool :=
  match document.resolve? comparison.key with
  | some value => comparison.operator.holds value comparison.value
  | none => false

def Query.holdsIn (query : Query) (document : Document) : Bool :=
  query.all (·.holdsIn document)

end PathStore
