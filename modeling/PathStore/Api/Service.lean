import PathStore.Api.Records
import PathStore.Database
import PathStore.Metrics.Exposition

/-!
# The service

The service answers requests about a database: the path of the target names a resource, and each
resource knows a few methods.  Every failure of the database, and every request that is not
understood, is answered with an envelope that holds its message.  Routes, the methods they know, the
limit of the body and the decoding of targets and forms are rules of axum, the framework that the
service is built on, and stand here as that library has them.
-/

namespace PathStore

/-- The methods that make a difference. -/
inductive Method where
  | get
  | head
  | post
  | options
  | other
deriving Repr, DecidableEq

def Method.ofName (name : String) : Method :=
  if name = "GET" then .get
  else if name = "HEAD" then .head
  else if name = "POST" then .post
  else if name = "OPTIONS" then .options
  else .other

structure Request where
  method : Method
  target : Bytes
  body : Bytes

structure Response where
  status : Nat
  contentType : Option String
  /-- The methods that the resource knows, where that is said. -/
  allow : Option String
  body : String
deriving Repr

namespace Response

def bare (status : Nat) (allow : Option String) : Response :=
  ⟨status, none, allow, ""⟩

def ofResult {α : Type} (codec : Json.Codec α) (result : Except String α) : Response :=
  let (status, envelope) :=
    match result with
    | .ok body => (200, Envelope.ok body)
    | .error message => (400, Envelope.failed message)
  ⟨status, some "application/json", none, ((Envelope.format codec).write envelope).compact⟩

def withoutBody (response : Response) : Response :=
  { response with body := "" }

end Response

inductive Resource where
  | documents
  /-- One document, its id still percent-encoded. -/
  | document (id : Bytes)
  | health
  | metrics
deriving Repr, DecidableEq

namespace Resource

def ofPath? (path : Bytes) : Option Resource :=
  let segments := splitAtEach '/'.toUInt8 path
  if segments = [[], Utf8.encode "docs"] then some .documents
  else if segments = [[], Utf8.encode "health"] then some .health
  else if segments = [[], Utf8.encode "metrics"] then some .metrics
  else
    match segments with
    | [[], folder, id] =>
      if folder = Utf8.encode "docs" && !id.isEmpty then some (.document id) else none
    | _ => none

/-- The methods that the resource knows. -/
def allow : Resource → String
  | .documents => "POST,GET,HEAD"
  | _ => "GET,HEAD"

end Resource

def endsHost (b : UInt8) : Bool :=
  b = '/'.toUInt8 || b = '?'.toUInt8 || b = '#'.toUInt8

/-- A target from its path on: an absolute one names a scheme and a host before it. -/
def fromPath (target : Bytes) : Bytes :=
  if target.head? = some '/'.toUInt8 then target
  else
    let rest := target.dropWhile (· ≠ ':'.toUInt8)
    if rest.take 3 = Utf8.encode "://" then (rest.drop 3).dropWhile (!endsHost ·) else target

/-- The path and the query of a target; its fragment is no concern of the service. -/
def pathAndQuery (target : Bytes) : Bytes × Bytes :=
  let target := (fromPath target).takeWhile (· ≠ '#'.toUInt8)
  let path := target.takeWhile (· ≠ '?'.toUInt8)
  (path, target.drop (path.length + 1))

example : pathAndQuery (Utf8.encode "/docs/a?q=b?c#d") =
    (Utf8.encode "/docs/a", Utf8.encode "q=b?c") := by decide

def serviceVersion : String := "0.1.0"

/-- The greatest number of bytes in the body of a request. -/
def bodyLimit : Nat := 2097152

namespace Database

/-- The response to a result of the database, as `view` shows it. -/
def respondWith {α β : Type} (codec : Json.Codec β) (view : α → β) :
    Except Error α × Database → Response × Database
  | (.ok result, db) => (.ofResult codec (.ok (view result)), db)
  | (.error error, db) => (.ofResult codec (.error error.message), db)

def respondSearch (query : Bytes) (duration : Duration) (db : Database) : Response × Database :=
  match SearchParameters.ofForm (Form.fields query) with
  | .error name =>
    (.ofResult SearchResponse.format.codec
      (.error s!"Failed to deserialize query string: duplicate field `{name}`"), db)
  | .ok parameters =>
    respondWith SearchResponse.format.codec SearchResponse.ofOutcome
      (db.search parameters.query parameters.allowsIndex duration)

def respondAdd (body : Bytes) (freshId : String) (db : Database) : Response × Database :=
  if bodyLimit < body.length then
    (⟨413, some "text/plain; charset=utf-8", none,
      "Failed to buffer the request body: length limit exceeded"⟩, db)
  else
    match Json.parse body with
    | .error error =>
      (.ofResult AddResponse.format.codec (.error s!"Invalid JSON body: {error.message}"), db)
    | .ok value => respondWith AddResponse.format.codec AddResponse.mk (db.add freshId value)

def respondDocument (id : Bytes) (db : Database) : Response × Database :=
  match Utf8.decode (Percent.decode id) with
  | .error _ =>
    (.ofResult DocumentResponse.format.codec
      (.error "Invalid URL: Invalid UTF-8 in `id`"), db)
  | .ok id => respondWith DocumentResponse.format.codec DocumentResponse.mk (db.get id)

def respondGet (resource : Resource) (query : Bytes) (duration : Duration) (db : Database) :
    Response × Database :=
  match resource with
  | .documents => db.respondSearch query duration
  | .document id => db.respondDocument id
  | .health => respondWith HealthResponse.format.codec (HealthResponse.mk serviceVersion) db.count
  | .metrics => (⟨200, some "text/plain; version=0.0.4", none, db.metrics.text⟩, db)

/-- Answers a request.  A document that is added gets the fresh id, and a search takes so long. -/
def respond (request : Request) (freshId : String) (duration : Duration) (db : Database) :
    Response × Database :=
  let (path, query) := pathAndQuery request.target
  match Resource.ofPath? path, request.method with
  | resource?, .options => (.bare 200 (resource?.map Resource.allow), db)
  | none, _ => (.bare 404 none, db)
  | some resource, .get => db.respondGet resource query duration
  | some resource, .head =>
    let (response, db) := db.respondGet resource query duration
    (response.withoutBody, db)
  | some .documents, .post => db.respondAdd request.body freshId
  | some resource, _ => (.bare 405 (some resource.allow), db)

end Database

end PathStore
