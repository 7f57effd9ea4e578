import PathStore.Index.Rebuilding
import PathStore.Json.Record
import PathStore.Search.Outcome
import PathStore.Text.Hex

/-!
# Records of the interface

What requests and responses carry.  Every response body is an envelope, which holds either a result
or the message of an error.
-/

namespace PathStore

open Json (Codec RecordFormat)

def Strategy.codec : Codec Strategy :=
  .named Strategy.all Strategy.name

def SearchHit.format : RecordFormat SearchHit where
  name := "SearchHit"
  blank := ⟨"", []⟩
  fields :=
    [.required "id" .string (·.id) fun value hit ↦ { hit with id := value },
      .required "body" .document (·.body) fun value hit ↦ { hit with body := value }]

def SearchOutcome.format : RecordFormat SearchOutcome where
  name := "SearchOutcome"
  blank := ⟨[], .index⟩
  fields :=
    [.required "hits" SearchHit.format.codec.list (·.hits)
        fun value outcome ↦ { outcome with hits := value },
      .required "strategy" Strategy.codec (·.strategy)
        fun value outcome ↦ { outcome with strategy := value }]

def ReindexReport.format : RecordFormat ReindexReport where
  name := "ReindexReport"
  blank := .empty
  fields :=
    [.required "indexed" (.natural "u64") (·.indexed)
        fun value report ↦ { report with indexed := value },
      .required "skipped" (.natural "u64") (·.skipped)
        fun value report ↦ { report with skipped := value }]

def IdSet.format : RecordFormat IdSet where
  name := "IdSet"
  blank := .empty
  fields := [.required "ids" .stringSet (fun ids ↦ ids) fun value _ ↦ value]

/-- What a search is asked for. -/
structure SearchParameters where
  /-- The text of the query. -/
  query : String
  /-- The index is passed over if this is the word `true`. -/
  skipIndex : Option String
deriving Repr, DecidableEq

namespace SearchParameters

def empty : SearchParameters :=
  ⟨"", none⟩

def allowsIndex (parameters : SearchParameters) : Bool :=
  parameters.skipIndex ≠ some "true"

def format : RecordFormat SearchParameters where
  name := "SearchParams"
  blank := empty
  fields :=
    [.defaulted "q" .string (·.query) fun value p ↦ { p with query := value },
      .defaulted "skipIndex" (.nullable .string) (·.skipIndex)
        fun value p ↦ { p with skipIndex := value }]

/-- The first name that has come before. -/
def repeated? (seen : List String) : List String → Option String
  | [] => none
  | name :: rest => if seen.contains name then some name else repeated? (name :: seen) rest

/-- The parameters in a form; the error is the name of a parameter that comes twice. -/
def ofForm (fields : List (String × String)) : Except String SearchParameters :=
  let names := (fields.map (·.1)).filter fun name ↦ name = "q" || name = "skipIndex"
  match repeated? [] names with
  | some name => .error name
  | none => .ok ⟨(Entries.get? fields "q").getD "", Entries.get? fields "skipIndex"⟩

end SearchParameters

structure SearchResponse where
  documents : List SearchHit
  count : Nat
  strategy : Strategy
deriving Repr

namespace SearchResponse

def ofOutcome (outcome : SearchOutcome) : SearchResponse :=
  ⟨outcome.hits, outcome.hits.length, outcome.strategy⟩

def format : RecordFormat SearchResponse where
  name := "SearchResponse"
  blank := ⟨[], 0, .index⟩
  fields :=
    [.required "documents" SearchHit.format.codec.list (·.documents)
        fun value response ↦ { response with documents := value },
      .required "count" (.natural "usize") (·.count)
        fun value response ↦ { response with count := value },
      .required "strategy" Strategy.codec (·.strategy)
        fun value response ↦ { response with strategy := value }]

end SearchResponse

structure AddResponse where
  id : String
deriving Repr

def AddResponse.format : RecordFormat AddResponse where
  name := "AddDocumentResponse"
  blank := ⟨""⟩
  fields := [.required "id" .string (·.id) fun value _ ↦ ⟨value⟩]

structure DocumentResponse where
  document : Document
deriving Repr

def DocumentResponse.format : RecordFormat DocumentResponse where
  name := "GetDocumentResponse"
  blank := ⟨[]⟩
  fields := [.required "document" .document (·.document) fun value _ ↦ ⟨value⟩]

structure HealthResponse where
  version : String
  documents : Nat
deriving Repr

def HealthResponse.format : RecordFormat HealthResponse where
  name := "HealthResponse"
  blank := ⟨"", 0⟩
  fields :=
    [.required "version" .string (·.version)
        fun value response ↦ { response with version := value },
      .required "documents" (.natural "usize") (·.documents)
        fun value response ↦ { response with documents := value }]

/-- A result or the message of an error, with a word that says which. -/
structure Envelope (α : Type) where
  status : String
  body : Option α
  error : Option String
deriving Repr

namespace Envelope

variable {α : Type}

def ok (body : α) : Envelope α :=
  ⟨"ok", some body, none⟩

def failed (message : String) : Envelope α :=
  ⟨"error", none, some message⟩

def format (body : Codec α) : RecordFormat (Envelope α) where
  name := "ApiResponse"
  blank := ⟨"", none, none⟩
  fields :=
    [.required "status" .string (·.status) fun value envelope ↦ { envelope with status := value },
      .possible "body" body (·.body) fun value envelope ↦ { envelope with body := value },
      .possible "error" .string (·.error) fun value envelope ↦ { envelope with error := value }]

end Envelope

end PathStore
