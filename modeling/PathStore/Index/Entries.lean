import PathStore.Document.PathValue
import PathStore.Error

/-!
# The index

The index has an entry for every path-value of a document: the set of the ids of the documents with
that path-value.  Adding and removing a document goes through its path-values in ascending order and
stops at the first failure.  An entry that would not change is not written, one that would be left
empty is taken out, and one whose bytes are no set of ids is an error for whoever needs it.
-/

namespace PathStore.Store

/-- The ids of the documents with a path-value; none when it has no entry. -/
def lookup (index : Store) (pathValue : String) : Except Error IdSet × Store :=
  match index.get (Utf8.encode pathValue) with
  | (.ok (some bytes), index) => ((IdSet.decode bytes).mapError .idSet, index)
  | (.ok none, index) => (.ok .empty, index)
  | (.error fault, index) => (.error (.store fault), index)

/-- Writes the entry of a path-value, or takes it out when it is empty. -/
def writeEntry (index : Store) (pathValue : String) (ids : IdSet) : Except Error Unit × Store :=
  let (result, index) :=
    if ids.isEmpty then index.remove (Utf8.encode pathValue)
    else index.set (Utf8.encode pathValue) (IdSet.encode ids)
  (result.mapError .store, index)

/-- Changes the entry of a path-value, and tells whether it had to. -/
def updateEntry (change : IdSet → IdSet) (index : Store) (pathValue : String) :
    Except Error Bool × Store :=
  match index.lookup pathValue with
  | (.error error, index) => (.error error, index)
  | (.ok ids, index) =>
    if change ids = ids then (.ok false, index)
    else
      let (result, index) := index.writeEntry pathValue (change ids)
      (result.map fun () ↦ true, index)

def mergeId (id : String) (index : Store) (pathValue : String) : Except Error Bool × Store :=
  index.updateEntry (·.insert id) pathValue

def retractId (id : String) (index : Store) (pathValue : String) : Except Error Bool × Store :=
  index.updateEntry (·.erase id) pathValue

/-- Changes entries one after the other up to the first failure; the result is how many changed. -/
def updateEntries (update : Store → String → Except Error Bool × Store) (index : Store) :
    List String → Except Error Nat × Store
  | [] => (.ok 0, index)
  | pathValue :: rest =>
    match update index pathValue with
    | (.error error, index) => (.error error, index)
    | (.ok changed, index) =>
      let (result, index) := updateEntries update index rest
      (result.map (· + if changed then 1 else 0), index)

def addToIndex (index : Store) (id : String) (document : Document) : Except Error Nat × Store :=
  index.updateEntries (mergeId id) document.pathValues.toList

def removeFromIndex (index : Store) (id : String) (document : Document) :
    Except Error Nat × Store :=
  index.updateEntries (retractId id) document.pathValues.toList

def countEntries (index : Store) : Except Error Nat × Store :=
  let (result, index) := index.count
  (result.mapError .store, index)

end PathStore.Store
