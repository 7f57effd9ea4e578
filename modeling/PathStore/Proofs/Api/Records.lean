import PathStore.Api.Records
import PathStore.Proofs.Json.Record

/-!
# Reading the records of the interface

The records that answer a request settle: they are read from their own text if and only if the
documents in them are not nested too deeply.  An envelope, a response, a list and a hit take one
bracket each, so a document may be nested less deeply inside them than on its own.  The documents
are those that have come out of their own text as they are written.
-/

namespace PathStore

open Json (Settles WrittenField)

theorem Document.IsFaithful.settles {document : Document} (h : Document.IsFaithful document)
    (room : Nat) :
    Settles (Json.document room) (.object document) document
      ((Json.object document).depth ≤ room) :=
  Json.settles_document h.canonical h.integersOnly h.unmarked

/-- The word for a strategy says which one it is. -/
theorem Strategy.settles (strategy : Strategy) (room : Nat) :
    Settles (Strategy.codec.read room) (Strategy.codec.write strategy) strategy True := by
  apply Json.settles_choice
  cases strategy <;> rfl

namespace SearchHit

def written (hit : SearchHit) (room : Nat) : List (WrittenField SearchHit) :=
  [⟨"id", .string hit.id, fun found ↦ { found with id := hit.id }, True⟩,
    ⟨"body", .object hit.body, fun found ↦ { found with body := hit.body },
      (Json.object hit.body).depth ≤ room⟩]

theorem writes {hit : SearchHit} (h : Document.IsFaithful hit.body) (room : Nat) :
    format.Writes room hit (hit.written room) where
  write := rfl
  settles := by
    refine List.forall_mem_cons.mpr ⟨?_, List.forall_mem_singleton.mpr ?_⟩
    · exact ⟨_, rfl, Json.Field.settles_required (Json.settles_string _ hit.id)⟩
    · exact ⟨_, rfl, Json.Field.settles_required (h.settles room)⟩
  nodup := (by decide : ["id", "body"].Nodup)
  complete := rfl
  record := rfl

/-- A hit takes one bracket for itself. -/
theorem settles {hit : SearchHit} (h : Document.IsFaithful hit.body) (room : Nat) :
    Settles (format.codec.read (room + 1)) (format.codec.write hit) hit
      ((Json.object hit.body).depth ≤ room) := by
  have hall :
      (∀ field ∈ hit.written room, field.legible) ↔ (Json.object hit.body).depth ≤ room := by
    simp [written]
  exact (writes h room).settles_read.congr hall

end SearchHit

namespace SearchResponse

def written (response : SearchResponse) (room : Nat) : List (WrittenField SearchResponse) :=
  [⟨"documents", SearchHit.format.codec.list.write response.documents,
      fun found ↦ { found with documents := response.documents },
      ∀ hit ∈ response.documents, (Json.object hit.body).depth ≤ room⟩,
    ⟨"count", .number (.integer response.count),
      fun found ↦ { found with count := response.count }, True⟩,
    ⟨"strategy", Strategy.codec.write response.strategy,
      fun found ↦ { found with strategy := response.strategy }, True⟩]

theorem writes {response : SearchResponse}
    (hhits : ∀ hit ∈ response.documents, Document.IsFaithful hit.body)
    (hcount : response.count < 2 ^ 64) (room : Nat) :
    format.Writes (room + 2) response (response.written room) where
  write := rfl
  settles := by
    have hdocuments : Settles (SearchHit.format.codec.list.read (room + 2))
        (SearchHit.format.codec.list.write response.documents) response.documents
        (∀ hit ∈ response.documents, (Json.object hit.body).depth ≤ room) :=
      Json.settles_list (fun hit hmem ↦ SearchHit.settles (hhits hit hmem) room)
        fun hit _ ↦ Json.begins_object _
    refine List.forall_mem_cons.mpr ⟨?_, List.forall_mem_cons.mpr ⟨?_,
      List.forall_mem_singleton.mpr ?_⟩⟩
    · exact ⟨_, rfl, Json.Field.settles_required hdocuments⟩
    · exact ⟨_, rfl, Json.Field.settles_required (Json.settles_natural _ hcount)⟩
    · exact ⟨_, rfl, Json.Field.settles_required (response.strategy.settles _)⟩
  nodup := (by decide : ["documents", "count", "strategy"].Nodup)
  complete := rfl
  record := rfl

/-- A response to a search takes three brackets: its own, that of the list and that of a hit. -/
theorem settles {response : SearchResponse}
    (hhits : ∀ hit ∈ response.documents, Document.IsFaithful hit.body)
    (hcount : response.count < 2 ^ 64) (room : Nat) :
    Settles (format.codec.read (room + 3)) (format.codec.write response) response
      (∀ hit ∈ response.documents, (Json.object hit.body).depth ≤ room) := by
  have hall : (∀ field ∈ response.written room, field.legible) ↔
      ∀ hit ∈ response.documents, (Json.object hit.body).depth ≤ room := by
    simp [written]
  exact (writes hhits hcount room).settles_read.congr hall

end SearchResponse

namespace DocumentResponse

def written (response : DocumentResponse) (room : Nat) : List (WrittenField DocumentResponse) :=
  [⟨"document", .object response.document, fun _ ↦ ⟨response.document⟩,
    (Json.object response.document).depth ≤ room⟩]

/-- A response with a document takes one bracket for itself. -/
theorem settles {response : DocumentResponse} (h : Document.IsFaithful response.document)
    (room : Nat) :
    Settles (format.codec.read (room + 1)) (format.codec.write response) response
      ((Json.object response.document).depth ≤ room) := by
  have hwrites : format.Writes room response (response.written room) := by
    refine ⟨rfl, List.forall_mem_singleton.mpr ?_, List.nodup_singleton _, rfl, rfl⟩
    exact ⟨_, rfl, Json.Field.settles_required (h.settles room)⟩
  exact hwrites.settles_read.congr List.forall_mem_singleton

end DocumentResponse

namespace Envelope

variable {α : Type} {codec : Json.Codec α} {result : α} {room : Nat} {condition : Prop}

def written (codec : Json.Codec α) (result : α) (condition : Prop) :
    List (WrittenField (Envelope α)) :=
  [⟨"status", .string "ok", fun found ↦ { found with status := "ok" }, True⟩,
    ⟨"body", codec.write result, fun found ↦ { found with body := some result }, condition⟩]

theorem writes (h : Settles (codec.read room) (codec.write result) result condition)
    {members : Document} (hobject : codec.write result = .object members) :
    (format codec).Writes room (ok result) (written codec result condition) where
  write := rfl
  settles := by
    have hbytes : (codec.write result).bytes =
        '{'.toUInt8 :: Utf8.encodeChars (Json.objectTail members) := by
      rw [hobject, Json.bytes_object]
    have hbody := Json.settles_nullable h hbytes (by decide) (by decide)
    refine List.forall_mem_cons.mpr ⟨?_, List.forall_mem_singleton.mpr ?_⟩
    · exact ⟨_, rfl, Json.Field.settles_required (Json.settles_string _ "ok")⟩
    · exact ⟨_, rfl, Json.Field.settles_possible hbody⟩
  nodup := (by decide : ["status", "body"].Nodup)
  complete := rfl
  record := rfl

/-- An envelope settles what is an object. -/
theorem settles (h : Settles (codec.read room) (codec.write result) result condition)
    {members : Document} (hobject : codec.write result = .object members) :
    Settles ((format codec).codec.read (room + 1)) ((format codec).codec.write (ok result))
      (ok result) condition := by
  apply (writes h hobject).settles_read.congr
  simp [written]

/-- A result in its envelope is read from the text of that, or the text is refused. -/
theorem decode_write (h : Settles (codec.read 126) (codec.write result) result condition)
    {members : Document} (hobject : codec.write result = .object members) :
    (condition → (format codec).codec.decode ((format codec).write (ok result)).bytes =
        .ok (ok result)) ∧
      (¬ condition → ∃ error,
        (format codec).codec.decode ((format codec).write (ok result)).bytes = .error error) :=
  (settles h hobject).readWhole

end Envelope

end PathStore
