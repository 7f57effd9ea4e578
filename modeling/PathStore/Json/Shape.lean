import Mathlib.Algebra.Group.Int.Defs
import PathStore.Json.Basic

/-!
# Canonical, shallow, unmarked and integral values

Properties of a JSON value that decide what can be said about its text.  A canonical value is one
that a text can denote: its keys ascend throughout, its integers have 64 bits, and its
double-precision numbers are finite.  A value is read back only while its arrays and objects are
nested no deeper than the reader follows them and while no object in it begins with the mark of
another text.  A value whose numbers are all integers has a text without any rounding.
-/

namespace PathStore.Json

/-- The number is an integer of 64 bits, signed if it is negative, or a finite one of double
precision. -/
def Number.InRange : Number → Prop
  | .integer i => -2 ^ 63 ≤ i ∧ i < 2 ^ 64
  | .double x => x.isFinite

mutual

/-- The keys of all objects in the value ascend strictly, and all numbers are in range. -/
def Canonical : Json → Prop
  | .number n => n.InRange
  | .array items => CanonicalItems items
  | .object members => CanonicalMembers members
  | _ => True
termination_by structural value => value

def CanonicalItems : List Json → Prop
  | [] => True
  | item :: rest => item.Canonical ∧ CanonicalItems rest
termination_by structural items => items

def CanonicalMembers : List (String × Json) → Prop
  | [] => True
  | (key, value) :: rest =>
    (∀ member ∈ rest, key < member.1) ∧ value.Canonical ∧ CanonicalMembers rest
termination_by structural members => members

end

mutual

/-- How deeply arrays and objects are nested in the value; zero for a scalar. -/
def depth : Json → Nat
  | .array items => depthItems items + 1
  | .object members => depthMembers members + 1
  | _ => 0
termination_by structural value => value

def depthItems : List Json → Nat
  | [] => 0
  | item :: rest => max item.depth (depthItems rest)
termination_by structural items => items

def depthMembers : List (String × Json) → Nat
  | [] => 0
  | (_, value) :: rest => max value.depth (depthMembers rest)
termination_by structural members => members

end

mutual

def Unmarked : Json → Prop
  | .array items => UnmarkedItems items
  | .object members => isMarked members = false ∧ UnmarkedMembers members
  | _ => True
termination_by structural value => value

def UnmarkedItems : List Json → Prop
  | [] => True
  | item :: rest => item.Unmarked ∧ UnmarkedItems rest
termination_by structural items => items

def UnmarkedMembers : List (String × Json) → Prop
  | [] => True
  | (_, value) :: rest => value.Unmarked ∧ UnmarkedMembers rest
termination_by structural members => members

end

mutual

def IntegersOnly : Json → Prop
  | .number (.double _) => False
  | .array items => IntegersOnlyItems items
  | .object members => IntegersOnlyMembers members
  | _ => True
termination_by structural value => value

def IntegersOnlyItems : List Json → Prop
  | [] => True
  | item :: rest => item.IntegersOnly ∧ IntegersOnlyItems rest
termination_by structural items => items

def IntegersOnlyMembers : List (String × Json) → Prop
  | [] => True
  | (_, value) :: rest => value.IntegersOnly ∧ IntegersOnlyMembers rest
termination_by structural members => members

end

end PathStore.Json
