import PathStore.Proofs.Document.PathValues

/-!
# The scalars of a document

The index walks through a document and joins the keys on its way; a query follows one path.  Where
no object stands under an empty key of the root, both come to the same scalars under the same texts,
and an array is the end of the way for both.  Keys that hold the marks between the parts of a
path-value may give several scalars the same text, and which of them a path-value comes from is not
said here.
-/

namespace PathStore

def Json.isArray : Json → Bool
  | .array _ => true
  | _ => false

mutual

/-- The value without the members that are arrays, at any depth of its objects. -/
def Json.withoutArrays : Json → Json
  | .object members => .object (membersWithoutArrays members)
  | value => value
termination_by structural value => value

/-- The members that are no arrays, each without the arrays among its own. -/
def membersWithoutArrays : List (String × Json) → List (String × Json)
  | [] => []
  | (key, value) :: rest =>
    if value.isArray then membersWithoutArrays rest
    else (key, value.withoutArrays) :: membersWithoutArrays rest
termination_by structural members => members

end

theorem Json.pathValues_of_isArray {value : Json} (h : value.isArray) (path : String) :
    value.pathValues path = [] := by
  cases value with
  | array items => rfl
  | null | bool | number | string | object => cases h

mutual

/-- The walk of the index passes over arrays as if they were not there. -/
theorem Json.pathValues_withoutArrays (value : Json) (path : String) :
    value.withoutArrays.pathValues path = value.pathValues path := by
  match value with
  | .object members => exact memberPathValues_membersWithoutArrays members path
  | .array _ | .null | .bool _ | .number _ | .string _ => rfl
termination_by structural value

theorem memberPathValues_membersWithoutArrays (members : List (String × Json)) (above : String) :
    memberPathValues above (membersWithoutArrays members) = memberPathValues above members := by
  match members with
  | [] => rfl
  | (key, value) :: rest =>
    have hrest := memberPathValues_membersWithoutArrays rest above
    rw [membersWithoutArrays, memberPathValues]
    split
    · rename_i harray
      rw [Json.pathValues_of_isArray harray, List.nil_append, hrest]
    · rw [memberPathValues, hrest, value.pathValues_withoutArrays]
termination_by structural members

end

/-- The path-values of the document are the paths to its scalars, joined with what these are
rendered to; its arrays add nothing to them, and no equality holds in it without its path-value
being one of them. -/
structure Document.ShowsScalars (document : Document) : Prop where
  mem_iff : ∀ text, text ∈ document.pathValues ↔ ∃ path scalar,
    document.resolve? path = some scalar ∧ scalar.isCompound = false ∧
      text = pathValue path scalar.rendering
  arrays : Document.pathValues (membersWithoutArrays document) = document.pathValues
  equality : ∀ comparison : Comparison, comparison.isEquality → comparison.holdsIn document →
    comparison.pathValue ∈ document.pathValues

/-- Where no object stands under an empty key of the root, the path-values are those of the scalars
outside arrays, and no equality holds without its path-value. -/
theorem Document.showsScalars {document : Document} (hkeys : (Json.object document).KeysAscend)
    (hroot : ∀ members, Entries.get? document "" ≠ some (.object members)) :
    document.ShowsScalars where
  mem_iff text := by
    have hjoined {path : Path} {scalar : Json} (h : document.resolve? path = some scalar) :
        path.joined = ".".intercalate path :=
      path.joined_eq_intercalate (not_startsEmpty_of_resolve? hroot h)
    calc
      text ∈ document.pathValues ↔ ∃ path scalar, document.resolve? path = some scalar ∧
          scalar.isCompound = false ∧ text = path.joined ++ "=" ++ scalar.rendering :=
        mem_pathValues_iff hkeys
      _ ↔ _ := by
        apply exists₂_congr
        intro path scalar
        apply and_congr_right
        intro hscalar
        rw [hjoined hscalar, pathValue]
  arrays := congrArg OrderedSet.ofList (memberPathValues_membersWithoutArrays document "")
  equality _ hequality hholds := Comparison.pathValue_mem hequality hholds (.inr hroot)

/-- A document whose inner keys are empty or hold marks, with arrays, and with two scalars under one
text. -/
def oddKeys : Document :=
  [("a", .object [("", .object [("b.c", .bool true)]), (".b.c", .bool true), ("x=y", .string "=")]),
    ("list", .array [.object [("k", .null)]])]

theorem Document.showsScalars_oddKeys : oddKeys.ShowsScalars ∧
    oddKeys.pathValues.toList = ["a..b.c=true", "a.x=y=="] := by
  refine ⟨showsScalars ?_ ?_, by decide +kernel⟩
  · simp only [oddKeys, Json.keysAscend_object_iff, List.forall_mem_cons, Entries.Ascending]
    refine ⟨by decide, ⟨by decide, ⟨by decide, ?_⟩, ?_⟩, ?_⟩ <;>
      simp [Json.keysAscend_of_not_object]
  · intro members h
    cases h

end PathStore
