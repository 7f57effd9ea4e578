import Mathlib.Data.List.TakeWhile
import PathStore.Api.Service
import PathStore.Proofs.Database.Adding
import PathStore.Proofs.Text.Percent

/-!
# The service and the database

A request about documents is a call of the database in another notation.  Texts and ids are
percent-encoded into the target, so they may hold anything; what comes back is the result of the
call in an envelope, or the message of its error.  Nothing is said here about whether the text of an
answer can be read again.
-/

namespace PathStore

/-- The fields of a search: the text of the query, and what is said of skipping the index. -/
def searchFields (text : String) (skipIndex : Option String) : List (String × String) :=
  ("q", text) :: skipIndex.toList.map ("skipIndex", ·)

def searchTarget (text : String) (skipIndex : Option String) : Bytes :=
  Utf8.encode "/docs?" ++ Form.write (searchFields text skipIndex)

def documentTarget (id : String) : Bytes :=
  Utf8.encode "/docs/" ++ Percent.encodeText id

def documentsTarget : Bytes :=
  Utf8.encode "/docs"

example : searchTarget "a:1" (some "true") =
    Utf8.encode "/docs?q=%61%3A%31&skipIndex=%74%72%75%65" := by decide

theorem mem_searchFields {text : String} {skipIndex : Option String} {field : String × String}
    (h : field ∈ searchFields text skipIndex) : field.1 = "q" ∨ field.1 = "skipIndex" := by
  rcases List.mem_cons.mp h with rfl | hmem
  · exact .inl rfl
  · obtain ⟨value, -, rfl⟩ := List.mem_map.mp hmem
    exact .inr rfl

theorem takeWhile_ne_of_not_mem {b : UInt8} {bytes : Bytes} (h : b ∉ bytes) :
    bytes.takeWhile (· ≠ b) = bytes := by
  apply List.takeWhile_eq_self_iff.mpr
  intro a ha
  have hne : a ≠ b := by
    intro heq
    exact h (heq ▸ ha)
  simpa using hne

theorem fromPath_of_slash {target : Bytes} (h : target.head? = some '/'.toUInt8) :
    fromPath target = target :=
  if_pos h

theorem pathAndQuery_of_path {path : Bytes} (hslash : path.head? = some '/'.toUInt8)
    (hquestion : '?'.toUInt8 ∉ path) (hhash : '#'.toUInt8 ∉ path) :
    pathAndQuery path = (path, []) := by
  rw [pathAndQuery, fromPath_of_slash hslash, takeWhile_ne_of_not_mem hhash,
    takeWhile_ne_of_not_mem hquestion, List.drop_eq_nil_of_le (Nat.le_succ _)]

theorem pathAndQuery_of_query {path query : Bytes} (hslash : path.head? = some '/'.toUInt8)
    (hquestion : '?'.toUInt8 ∉ path) (hhash : '#'.toUInt8 ∉ path ++ query) :
    pathAndQuery (path ++ '?'.toUInt8 :: query) = (path, query) := by
  rw [List.mem_append, not_or] at hhash
  have hslash' : (path ++ '?'.toUInt8 :: query).head? = some '/'.toUInt8 := by
    rw [List.head?_append, hslash]
    rfl
  have hnot : '#'.toUInt8 ∉ path ++ '?'.toUInt8 :: query := by
    rw [List.mem_append, List.mem_cons]
    rintro (hmem | heq | hmem)
    · exact hhash.1 hmem
    · cases heq
    · exact hhash.2 hmem
  have hpath : (path ++ '?'.toUInt8 :: query).takeWhile (· ≠ '?'.toUInt8) = path := by
    rw [List.takeWhile_append, takeWhile_ne_of_not_mem hquestion]
    simp
  rw [pathAndQuery, fromPath_of_slash hslash', takeWhile_ne_of_not_mem hnot, hpath]
  simp

theorem isPlainName_of_mem {text : String} {skipIndex : Option String} {field : String × String}
    (h : field ∈ searchFields text skipIndex) : Form.IsPlainName field.1 := by
  rcases mem_searchFields h with hname | hname
  · rw [hname]
    decide +kernel
  · rw [hname]
    decide +kernel

/-- Whatever the text of a query, the target of its search is taken apart where it was put
together. -/
theorem pathAndQuery_searchTarget (text : String) (skipIndex : Option String) :
    pathAndQuery (searchTarget text skipIndex) =
      (documentsTarget, Form.write (searchFields text skipIndex)) := by
  have hquery : '#'.toUInt8 ∉ Form.write (searchFields text skipIndex) := by
    apply Form.not_mem_write (by decide) (by decide)
    intro field hfield
    rcases mem_searchFields hfield with hname | hname
    · rw [hname]
      decide
    · rw [hname]
      decide
  have hpath : '#'.toUInt8 ∉ documentsTarget := by decide
  have hhash : '#'.toUInt8 ∉ documentsTarget ++ Form.write (searchFields text skipIndex) := by
    intro h
    exact (List.mem_append.mp h).elim hpath hquery
  exact pathAndQuery_of_query rfl (by decide) hhash

theorem pathAndQuery_documentTarget (id : String) :
    pathAndQuery (documentTarget id) = (documentTarget id, []) := by
  have hfolder : ∀ b ∈ Utf8.encode "/docs/", b ≠ '?'.toUInt8 ∧ b ≠ '#'.toUInt8 := by
    decide +kernel
  apply pathAndQuery_of_path rfl
  · intro h
    rcases List.mem_append.mp h with hmem | hmem
    · exact (hfolder _ hmem).1 rfl
    · exact Percent.not_mem_encode (by decide) (by decide) _ hmem
  · intro h
    rcases List.mem_append.mp h with hmem | hmem
    · exact (hfolder _ hmem).2 rfl
    · exact Percent.not_mem_encode (by decide) (by decide) _ hmem

/-- Whatever the id, its target names the document and nothing else; without an id it names
nothing. -/
theorem ofPath?_documentTarget {id : String} (h : id ≠ "") :
    Resource.ofPath? (documentTarget id) = some (.document (Percent.encodeText id)) := by
  have hid : Percent.encodeText id ≠ [] := by
    intro hnil
    exact h (Utf8.encode_injective (Percent.encode_eq_nil_iff.mp hnil))
  have hslash : '/'.toUInt8 ∉ Percent.encodeText id :=
    Percent.not_mem_encode (by decide) (by decide) _
  have hjoined : documentTarget id =
      ['/'.toUInt8].intercalate [[], Utf8.encode "docs", Percent.encodeText id] := by
    have hfolder : Utf8.encode "/docs/" =
        '/'.toUInt8 :: (Utf8.encode "docs" ++ ['/'.toUInt8]) := by decide
    rw [documentTarget, hfolder]
    simp [List.intercalate]
  have hsegments : splitAtEach '/'.toUInt8 (documentTarget id) =
      [[], Utf8.encode "docs", Percent.encodeText id] := by
    rw [hjoined]
    apply splitAtEach_intercalate (List.cons_ne_nil _ _)
    simpa using ⟨by decide, hslash⟩
  rw [Resource.ofPath?, hsegments]
  simp [hid]

/-- The parameters of a search come out of its form as they were put in. -/
theorem ofForm_searchFields (text : String) (skipIndex : Option String) :
    SearchParameters.ofForm (searchFields text skipIndex) = .ok ⟨text, skipIndex⟩ := by
  cases skipIndex with
  | none => rfl
  | some value => rfl

namespace Response

def accepted (body : Json) : Response where
  status := 200
  contentType := some "application/json"
  allow := none
  body := (Json.object [("status", .string "ok"), ("body", body)]).compact

def refused (message : String) : Response where
  status := 400
  contentType := some "application/json"
  allow := none
  body := (Json.object [("status", .string "error"), ("error", .string message)]).compact

/-- The answer is an object with either a body or an error. -/
def IsEnvelope (response : Response) : Prop :=
  ∃ members : List (String × Json), response.body = (Json.object members).compact ∧
    ("body" ∈ members.map Prod.fst ↔ "error" ∉ members.map Prod.fst)

theorem isEnvelope_accepted (body : Json) : (accepted body).IsEnvelope :=
  ⟨_, rfl, iff_of_true (by simp) (by simp)⟩

theorem isEnvelope_refused (message : String) : (refused message).IsEnvelope :=
  ⟨_, rfl, iff_of_false (by simp) (by simp)⟩

theorem accepted_ne_refused (body : Json) (message : String) : accepted body ≠ refused message :=
  fun h ↦ by cases congrArg Response.status h

end Response

/-- What a search has found, as it is answered. -/
def SearchOutcome.json (outcome : SearchOutcome) : Json :=
  .object
    [("documents", .array (outcome.hits.map fun hit ↦
        .object [("id", .string hit.id), ("body", .object hit.body)])),
      ("count", .number (.integer outcome.hits.length)),
      ("strategy", .string outcome.strategy.name)]

namespace Database

/-- The answer that shows a result, or the message of the error. -/
def answer {α : Type} (view : α → Json) : Except Error α × Database → Response × Database
  | (.ok result, db) => (.accepted (view result), db)
  | (.error error, db) => (.refused error.message, db)

theorem isEnvelope_answer {α : Type} (view : α → Json) (call : Except Error α × Database) :
    (answer view call).1.IsEnvelope := by
  rcases call with ⟨error | result, db⟩
  · exact Response.isEnvelope_refused error.message
  · exact Response.isEnvelope_accepted (view result)

/-- Answering a call does not change the database any further. -/
theorem answer_snd {α : Type} (view : α → Json) (call : Except Error α × Database) :
    (answer view call).2 = call.2 := by
  rcases call with ⟨error | result, db⟩ <;> rfl

theorem answer_of_ok {α : Type} {view : α → Json} {call : Except Error α × Database} {result : α}
    (h : call.1 = .ok result) : (answer view call).1 = .accepted (view result) := by
  obtain ⟨found, db⟩ := call
  obtain rfl : found = .ok result := h
  rfl

theorem answer_of_error {α : Type} {view : α → Json} {call : Except Error α × Database}
    {error : Error} (h : call.1 = .error error) :
    (answer view call).1 = .refused error.message := by
  obtain ⟨found, db⟩ := call
  obtain rfl : found = .error error := h
  rfl

theorem respondWith_eq_answer {α β : Type} (codec : Json.Codec β) (view : α → β)
    (call : Except Error α × Database) :
    respondWith codec view call = answer (fun result ↦ codec.write (view result)) call := by
  rcases call with ⟨error | result, db⟩ <;> rfl

section requests

variable (db : Database) (freshId : String) (duration : Duration)

theorem respond_get {target path query : Bytes} {resource : Resource}
    (htarget : pathAndQuery target = (path, query))
    (hpath : Resource.ofPath? path = some resource) (body : Bytes) :
    db.respond ⟨.get, target, body⟩ freshId duration = db.respondGet resource query duration := by
  rw [respond]
  dsimp only
  rw [htarget]
  dsimp only
  rw [hpath]

/-- A request to search is a call of the search. -/
theorem respond_search (text : String) (skipIndex : Option String) (body : Bytes) :
    db.respond ⟨.get, searchTarget text skipIndex, body⟩ freshId duration =
      answer SearchOutcome.json (db.search text (skipIndex ≠ some "true") duration) := by
  have hfields : ∀ field ∈ searchFields text skipIndex, Form.IsPlainName field.1 :=
    fun _ ↦ isPlainName_of_mem
  have hresource : Resource.ofPath? documentsTarget = some .documents := by decide
  rw [db.respond_get freshId duration (pathAndQuery_searchTarget text skipIndex) hresource,
    respondGet, respondSearch, Form.fields_write hfields, ofForm_searchFields]
  exact respondWith_eq_answer _ _ _

/-- A request for a document is a call for it, and its body plays no part. -/
theorem respond_document {id : String} (hid : id ≠ "") (body : Bytes) :
    db.respond ⟨.get, documentTarget id, body⟩ freshId duration =
      answer (fun document ↦ .object [("document", .object document)]) (db.get id) := by
  rw [db.respond_get freshId duration (pathAndQuery_documentTarget id) (ofPath?_documentTarget hid),
    respondGet, respondDocument, Percent.encodeText, Percent.decode_encode, Utf8.decode_encode]
  exact respondWith_eq_answer _ _ _

theorem respond_post (body : Bytes) :
    db.respond ⟨.post, documentsTarget, body⟩ freshId duration = db.respondAdd body freshId := by
  have htarget : pathAndQuery documentsTarget = (documentsTarget, []) := by decide
  have hresource : Resource.ofPath? documentsTarget = some .documents := by decide
  rw [respond]
  dsimp only
  rw [htarget]
  dsimp only
  rw [hresource]

/-- The body is the text of an object, and the document can be written. -/
def Accepts (body : Bytes) : Prop :=
  (∃ document, Json.parse body = .ok (.object document)) ∧ db.documents.sets.failsNext = false

variable {db} {body : Bytes}

/-- A body within the limit that is JSON is added as it is parsed. -/
theorem respondAdd_of_parse (hlimit : body.length ≤ bodyLimit) {value : Json}
    (hparse : Json.parse body = .ok value) : db.respondAdd body freshId =
      answer (fun id ↦ .object [("id", .string id)]) (db.add freshId value) := by
  rw [respondAdd, if_neg (Nat.not_lt.mpr hlimit), hparse]
  exact respondWith_eq_answer _ _ _

/-- A body that is JSON is refused just when adding it fails. -/
theorem accepts_iff_of_parse {value : Json} (hparse : Json.parse body = .ok value) :
    db.Accepts body ↔ ¬ ∃ error, (db.add freshId value).1 = .error error := by
  have hobject : (∃ document, Json.parse body = .ok (.object document)) ↔
      value.asDocument? ≠ none := by
    simp only [hparse, Except.ok.injEq, Option.ne_none_iff_exists', Json.asDocument?_eq_some_iff]
  rw [Accepts, hobject, add_eq_error_iff, not_or, Bool.not_eq_true]

/-- Adding a document is answered with its id, or refused without a trace. -/
theorem respondAdd_cases (hlimit : body.length ≤ bodyLimit) :
    db.Accepts body ∧
        (db.respondAdd body freshId).1 = .accepted (.object [("id", .string freshId)]) ∨
      ¬ db.Accepts body ∧ (∃ message, (db.respondAdd body freshId).1 = .refused message) ∧
        (db.respondAdd body freshId).2.documents.entries = db.documents.entries ∧
        (db.respondAdd body freshId).2.index = db.index ∧
        (db.respondAdd body freshId).2.metrics = db.metrics := by
  cases hparse : Json.parse body with
  | error error =>
    have hrefused : ¬ db.Accepts body := by
      intro haccepts
      obtain ⟨document, hdocument⟩ := haccepts.1
      cases hparse.symm.trans hdocument
    rw [respondAdd, if_neg (Nat.not_lt.mpr hlimit), hparse]
    exact .inr ⟨hrefused, ⟨_, rfl⟩, rfl, rfl, rfl⟩
  | ok value =>
    have haccepts : db.Accepts body ↔ ¬ ∃ error, (db.add freshId value).1 = .error error :=
      accepts_iff_of_parse freshId hparse
    rw [respondAdd_of_parse freshId hlimit hparse, haccepts, not_not, answer_snd]
    by_cases hfailed : ∃ error, (db.add freshId value).1 = .error error
    · have hunchanged := unchanged_of_add_error hfailed
      obtain ⟨error, herror⟩ := hfailed
      exact .inr ⟨⟨error, herror⟩, ⟨error.message, answer_of_error herror⟩, hunchanged⟩
    · obtain ⟨result, after, hadd, ⟨herror, -⟩ | ⟨rfl, -⟩⟩ := db.add_effect freshId value
      · exact absurd (hadd ▸ herror) hfailed
      · exact .inl ⟨hfailed, answer_of_ok (congrArg Prod.fst hadd)⟩

end requests

/-! ## The service as a whole -/

/-- The requests that are calls of the database: searches, documents by their ids, and bodies that
are not too long. -/
inductive IsCall : Request → Prop where
  | search (text : String) (skipIndex : Option String) (body : Bytes) :
      IsCall ⟨.get, searchTarget text skipIndex, body⟩
  | document (id : String) (hid : id ≠ "") (body : Bytes) :
      IsCall ⟨.get, documentTarget id, body⟩
  | add (body : Bytes) (hlimit : body.length ≤ bodyLimit) :
      IsCall ⟨.post, documentsTarget, body⟩

/-- The service answers as the database does.  A search and a document are answered with the result
of the call or the message of its error.  Adding is answered with the fresh id just when the body is
the text of an object and the document can be written, and otherwise refused without a trace in the
stores and in the metrics.  Each answer has either a body or an error. -/
structure IsServed (db : Database) (freshId : String) (duration : Duration) : Prop where
  search : ∀ text skipIndex body,
    db.respond ⟨.get, searchTarget text skipIndex, body⟩ freshId duration =
      answer SearchOutcome.json (db.search text (skipIndex ≠ some "true") duration)
  document : ∀ id body, id ≠ "" →
    db.respond ⟨.get, documentTarget id, body⟩ freshId duration =
      answer (fun document ↦ .object [("document", .object document)]) (db.get id)
  added : ∀ body, body.length ≤ bodyLimit →
    ((db.respond ⟨.post, documentsTarget, body⟩ freshId duration).1 =
        .accepted (.object [("id", .string freshId)]) ↔ db.Accepts body)
  stored : ∀ body document, body.length ≤ bodyLimit → Json.parse body = .ok (.object document) →
    (db.respond ⟨.post, documentsTarget, body⟩ freshId duration).2 =
      (db.add freshId (.object document)).2
  refused : ∀ body, body.length ≤ bodyLimit → ¬ db.Accepts body →
    (∃ message, (db.respond ⟨.post, documentsTarget, body⟩ freshId duration).1 =
        .refused message) ∧
      (db.respond ⟨.post, documentsTarget, body⟩ freshId duration).2.documents.entries =
        db.documents.entries ∧
      (db.respond ⟨.post, documentsTarget, body⟩ freshId duration).2.index = db.index ∧
      (db.respond ⟨.post, documentsTarget, body⟩ freshId duration).2.metrics = db.metrics
  envelope : ∀ request, IsCall request → (db.respond request freshId duration).1.IsEnvelope

/-- Whatever the stores hold and whichever of their calls fail, the service answers as the database
does. -/
theorem respond_isServed (db : Database) (freshId : String) (duration : Duration) :
    db.IsServed freshId duration where
  search := db.respond_search freshId duration
  document id body hid := db.respond_document freshId duration hid body
  added body hlimit := by
    rw [respond_post]
    rcases respondAdd_cases freshId hlimit with ⟨haccepts, hanswer⟩ | ⟨hnot, ⟨message, hanswer⟩, -⟩
    · exact iff_of_true hanswer haccepts
    · rw [hanswer]
      exact iff_of_false (Response.accepted_ne_refused _ _).symm hnot
  stored body document hlimit hparse := by
    rw [respond_post, respondAdd_of_parse freshId hlimit hparse, answer_snd]
  refused body hlimit hnot := by
    rw [respond_post]
    rcases respondAdd_cases freshId hlimit with ⟨haccepts, -⟩ | ⟨-, hrefused⟩
    · exact absurd haccepts hnot
    · exact hrefused
  envelope request hcall := by
    cases hcall with
    | search text skipIndex body =>
      rw [respond_search]
      exact isEnvelope_answer _ _
    | document id hid body =>
      rw [respond_document db freshId duration hid]
      exact isEnvelope_answer _ _
    | add body hlimit =>
      rw [respond_post]
      rcases respondAdd_cases freshId hlimit with ⟨-, hanswer⟩ | ⟨-, ⟨message, hanswer⟩, -⟩
      · rw [hanswer]
        exact Response.isEnvelope_accepted _
      · rw [hanswer]
        exact Response.isEnvelope_refused message

end Database

end PathStore
