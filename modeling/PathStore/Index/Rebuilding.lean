import PathStore.Index.Entries
import PathStore.Storage.Documents

/-!
# Rebuilding the index

The index is rebuilt by adding every stored document again, in the order of the ids.  A document
whose body cannot be read is skipped; a failure of either store, a key that is no text, or an entry
that cannot be read ends the pass where it is.  Nothing is ever taken out.
-/

namespace PathStore

/-- What a pass over the stored documents did. -/
structure ReindexReport where
  indexed : Nat
  /-- Documents whose bodies could not be read. -/
  skipped : Nat
deriving Repr, DecidableEq

namespace ReindexReport

def empty : ReindexReport :=
  ⟨0, 0⟩

def total (report : ReindexReport) : Nat :=
  report.indexed + report.skipped

end ReindexReport

/-- Adds stored documents to the index; the last result is how many of them were looked at, the end
counted like one. -/
def Store.reindexFrom (index : Store) (report : ReindexReport) :
    List (Except Error StoredDocument) → Except Error ReindexReport × Store × Nat
  | [] => (.ok report, index, 1)
  | .error error :: _ => (.error error, index, 1)
  | .ok stored :: rest =>
    match stored.document with
    | .error _ =>
      let (result, index, looked) :=
        index.reindexFrom { report with skipped := report.skipped + 1 } rest
      (result, index, looked + 1)
    | .ok document =>
      match index.addToIndex stored.id document with
      | (.error error, index) => (.error error, index, 1)
      | (.ok _, index) =>
        let (result, index, looked) :=
          index.reindexFrom { report with indexed := report.indexed + 1 } rest
        (result, index, looked + 1)

end PathStore
