import PathStore.Error
import PathStore.Json.Reader

/-!
# The stored documents

A document is stored under the bytes of its id as the bytes of its compact text.  Looking at all
documents goes through the store in the order of the ids; the bodies are read only where they are
asked for, so that one bad body need not spoil the rest.
-/

namespace PathStore

/-- A stored document whose body has not been read. -/
structure StoredDocument where
  id : String
  body : Bytes
deriving Repr, DecidableEq

def decodeBody (body : Bytes) : Except Error Document :=
  (Json.parseDocument body).mapError .json

def StoredDocument.document (stored : StoredDocument) : Except Error Document :=
  decodeBody stored.body

def StoredDocument.ofEntry (entry : Bytes × Bytes) : Except Error StoredDocument :=
  match Utf8.decode entry.1 with
  | .ok id => .ok ⟨id, entry.2⟩
  | .error fault => .error (.documentKey fault)

namespace Store

/-- Stores a document, in place of the one that has the id. -/
def putDocument (store : Store) (id : String) (document : Document) : Except Error Unit × Store :=
  let (result, store) := store.set (Utf8.encode id) (Json.object document).bytes
  (result.mapError .store, store)

def getDocument (store : Store) (id : String) : Except Error Document × Store :=
  match store.get (Utf8.encode id) with
  | (.ok (some body), store) => (decodeBody body, store)
  | (.ok none, store) => (.error (.notFound id), store)
  | (.error fault, store) => (.error (.store fault), store)

def hasDocument (store : Store) (id : String) : Except Error Bool × Store :=
  let (result, store) := store.get (Utf8.encode id)
  ((result.mapError .store).map Option.isSome, store)

def storedDocuments (store : Store) : List (Except Error StoredDocument) :=
  store.yields.map fun
    | .ok entry => StoredDocument.ofEntry entry
    | .error fault => .error (.store fault)

def countDocuments (store : Store) : Except Error Nat × Store :=
  let (result, store) := store.count
  (result.mapError .store, store)

end Store

end PathStore
