import PathStore.Json.Basic

/-!
# What a search finds

A search returns the documents that satisfy a query, in ascending order of their ids, and the
strategy that led to them.
-/

namespace PathStore

/-- How a search finds its documents. -/
inductive Strategy where
  /-- Only the documents that the index names are fetched. -/
  | index
  /-- Every stored document is looked at. -/
  | fullScan
deriving Repr, DecidableEq

namespace Strategy

def name : Strategy → String
  | .index => "index"
  | .fullScan => "full_scan"

def all : List (String × Strategy) :=
  [(index.name, index), (fullScan.name, fullScan)]

end Strategy

structure SearchHit where
  id : String
  body : Document
deriving Repr

structure SearchOutcome where
  hits : List SearchHit
  strategy : Strategy
deriving Repr

end PathStore
