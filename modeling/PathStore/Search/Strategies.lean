import PathStore.Index.Entries
import PathStore.Ordered.Map
import PathStore.Query.Basic
import PathStore.Search.Outcome
import PathStore.Storage.Documents

/-!
# The two ways to search

The index narrows a query down to the ids that the entries of all its equalities have in common.
The documents with these ids are fetched, and an id without a document is passed over.  A query that
the index cannot narrow down, or narrows down to nothing, is answered by looking at every stored
document.  A fetched document is matched against the query when the query has ranges, and when hits
of the index are to be verified; otherwise the index is taken at its word.
-/

namespace PathStore

def countOne (counts : OrderedMap String Nat) (id : String) : OrderedMap String Nat :=
  counts.insert id ((counts.get? id).getD 0 + 1)

def countIds (sets : List IdSet) : OrderedMap String Nat :=
  sets.foldl (fun counts ids ↦ ids.toList.foldl countOne counts) .empty

/-- The ids that all sets have in common, in ascending order; none when there is no set. -/
def commonIds (sets : List IdSet) : List String :=
  ((countIds sets).entries.filter fun entry ↦ entry.2 = sets.length).map Prod.fst

namespace Store

/-- The entries of path-values, up to the first failure. -/
def lookupAll (index : Store) : List String → Except Error (List IdSet) × Store
  | [] => (.ok [], index)
  | pathValue :: rest =>
    match index.lookup pathValue with
    | (.error error, index) => (.error error, index)
    | (.ok ids, index) =>
      let (entries, index) := index.lookupAll rest
      (entries.map (ids :: ·), index)

/-- The documents with these ids that `keep` accepts.  An id without a document is passed over. -/
def fetch (keep : Document → Bool) (documents : Store) :
    List String → Except Error (List SearchHit) × Store
  | [] => (.ok [], documents)
  | id :: rest =>
    match documents.getDocument id with
    | (.ok body, documents) =>
      let (hits, documents) := documents.fetch keep rest
      (hits.map fun hits ↦ if keep body then ⟨id, body⟩ :: hits else hits, documents)
    | (.error (.notFound _), documents) => documents.fetch keep rest
    | (.error error, documents) => (.error error, documents)

def hit? (keep : Document → Bool) (stored : StoredDocument) : Except Error (Option SearchHit) :=
  stored.document.map fun body ↦ if keep body then some ⟨stored.id, body⟩ else none

/-- All stored documents that `keep` accepts. -/
def scanFor (keep : Document → Bool) (documents : Store) :
    Except Error (List SearchHit) × Store :=
  let (found, looked) := gather (documents.storedDocuments.map (· >>= hit? keep))
  (found.map (·.filterMap id), documents.scanned looked)

end Store

end PathStore
