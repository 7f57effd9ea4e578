import PathStore.Index.IdSet
import PathStore.Json.Fault
import PathStore.Query.Reading
import PathStore.Storage.Store

/-!
# Errors of the database

An error is a cause.  Its kind gives it a stable tag and opens its message; the rest of the message
is the wording of the cause.  Some kinds have no cause inside the database: they are for the
programs around it, which report their own errors in the same form.
-/

namespace PathStore

inductive ErrorKind where
  | queryParse
  | documentNotFound
  | invalidDocument
  | storage
  | decode
  | encoding
  | io
  | internal
deriving Repr, DecidableEq

namespace ErrorKind

def tag : ErrorKind → String
  | .queryParse => "query_parse_error"
  | .documentNotFound => "document_not_found"
  | .invalidDocument => "invalid_document"
  | .storage => "storage_error"
  | .decode => "decode_error"
  | .encoding => "encoding_error"
  | .io => "io_error"
  | .internal => "internal_error"

def title : ErrorKind → String
  | .queryParse => "Query parse error"
  | .documentNotFound => "Document not found"
  | .invalidDocument => "Invalid document"
  | .storage => "Storage error"
  | .decode => "Decode error"
  | .encoding => "Encoding error"
  | .io => "IO error"
  | .internal => "Internal error"

def message (kind : ErrorKind) (detail : String) : String :=
  kind.title ++ ": " ++ detail

/-- Whether the caller is at fault, and not the store. -/
def isClient : ErrorKind → Bool
  | .queryParse | .documentNotFound | .invalidDocument => true
  | _ => false

end ErrorKind

inductive Error where
  | query (error : QueryError)
  | notFound (id : String)
  | notAnObject
  | store (fault : StoreFault)
  /-- A stored document has a key that is no text. -/
  | documentKey (fault : Utf8.Fault)
  /-- A text or stored bytes are no JSON of the expected kind. -/
  | json (error : Json.ReadError)
  | idSet (fault : IdSetFault)
deriving Repr

namespace Error

def kind : Error → ErrorKind
  | .query _ => .queryParse
  | .notFound _ => .documentNotFound
  | .notAnObject => .invalidDocument
  | .store _ | .documentKey _ => .storage
  | .json _ => .decode
  | .idSet _ => .encoding

/-- The message without its title. -/
def detail : Error → String
  | .query error => error.message
  | .notFound id => id
  | .notAnObject => "document must be a JSON object"
  | .store fault => fault.message
  | .documentKey fault => "document key is not valid UTF-8: " ++ fault.message
  | .json error => error.message
  | .idSet fault => fault.message

def message (error : Error) : String :=
  error.kind.message error.detail

example : (Error.query (.missingColon 1 [' '])).message =
    "Query parse error: expected ':' at position 1, found ` `" := by decide +kernel

end Error

end PathStore
