import PathStore.Index.Rebuilding
import PathStore.Metrics.Basic
import PathStore.Search.Strategies

/-!
# The database

A database keeps documents in one store and an index of their path-values in another, and counts
what it does.  A document is stored before it is indexed; if indexing fails, the failure is counted
and the call has succeeded all the same.  Ids are given from outside, and so is the time that a
search took.  Every operation returns its result and the database afterwards, also when it fails.
-/

namespace PathStore

structure Database where
  documents : Store
  index : Store
  metrics : Metrics
  /-- Whether hits of the index are matched against queries without ranges too. -/
  verifiesHits : Bool

namespace Database

/-- The database over two stores, and the document store afterwards: its documents are counted. -/
def ofStores (verifiesHits : Bool) (documents index : Store) : Except Error Database × Store :=
  let (count, documents) := documents.countDocuments
  (count.map fun count ↦ ⟨documents, index, Metrics.empty.setDocuments count, verifiesHits⟩,
    documents)

def empty (verifiesHits : Bool) : Database :=
  ⟨.empty .documents, .empty .index, .empty, verifiesHits⟩

def onDocuments {α : Type} (call : Store → α × Store) (db : Database) : α × Database :=
  let (result, documents) := call db.documents
  (result, { db with documents := documents })

def onIndex {α : Type} (call : Store → α × Store) (db : Database) : α × Database :=
  let (result, index) := call db.index
  (result, { db with index := index })

def get (id : String) (db : Database) : Except Error Document × Database :=
  db.onDocuments (·.getDocument id)

def count (db : Database) : Except Error Nat × Database :=
  db.onDocuments (·.countDocuments)

/-- Indexes a document that has been stored; a failure is only counted. -/
def indexAdded (id : String) (document : Document) (db : Database) : Database :=
  match db.onIndex (·.addToIndex id document) with
  | (.ok _, db) => db
  | (.error _, db) => { db with metrics := db.metrics.recordIndexFailure }

/-- Adds a document under a fresh id, which is the result. -/
def add (id : String) (body : Json) (db : Database) : Except Error String × Database :=
  match body.asDocument? with
  | none => (.error .notAnObject, db)
  | some document =>
    match db.onDocuments (·.putDocument id document) with
    | (.error error, db) => (.error error, db)
    | (.ok (), db) =>
      (.ok id, { db with metrics := db.metrics.recordAdded }.indexAdded id document)

def accepts (query : Query) (db : Database) (document : Document) : Bool :=
  !(query.hasRange || db.verifiesHits) || query.holdsIn document

def fullScan (query : Query) (db : Database) : Except Error SearchOutcome × Database :=
  let (hits, db) := db.onDocuments (·.scanFor query.holdsIn)
  (hits.map (⟨·, .fullScan⟩), db)

/-- Runs a query; the index is consulted only if that is allowed. -/
def searchQuery (query : Query) (allowIndex : Bool) (db : Database) :
    Except Error SearchOutcome × Database :=
  if allowIndex && query.isIndexed then
    match db.onIndex (·.lookupAll query.pathValues) with
    | (.error error, db) => (.error error, db)
    | (.ok entries, db) =>
      let ids := commonIds entries
      if ids.isEmpty then db.fullScan query
      else
        let (hits, db) := db.onDocuments (Store.fetch (db.accepts query) · ids)
        (hits.map (⟨·, .index⟩), db)
  else db.fullScan query

/-- Reads a query and runs it, which takes so long. -/
def search (text : String) (allowIndex : Bool) (duration : Duration) (db : Database) :
    Except Error SearchOutcome × Database :=
  let (result, db) :=
    match Query.parse text with
    | .ok query => db.searchQuery query allowIndex
    | .error error => (.error (.query error), db)
  match result with
  | .ok outcome =>
    (.ok outcome, { db with metrics := db.metrics.recordSearch outcome.strategy duration })
  | .error error => (.error error, { db with metrics := db.metrics.recordSearchError })

def reindex (db : Database) : Except Error ReindexReport × Database :=
  let (result, index, looked) := db.index.reindexFrom .empty db.documents.storedDocuments
  let db := { db with documents := db.documents.scanned looked, index := index }
  match result with
  | .ok report => (.ok report, { db with metrics := db.metrics.setDocuments report.total })
  | .error error => (.error error, db)

end Database

end PathStore
