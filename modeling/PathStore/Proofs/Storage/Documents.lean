import PathStore.Proofs.Storage.Store
import PathStore.Proofs.Text.Utf8
import PathStore.Storage.Documents

/-!
# Laws of the stored documents

What the entries of a store say about documents: which document an id has, and which ids have a body
that cannot be read.  The calls on documents are then described by these relations alone.
-/

namespace PathStore

theorem StoredDocument.ofEntry_eq_ok_iff {entry : Bytes × Bytes} {stored : StoredDocument} :
    ofEntry entry = .ok stored ↔ entry = (Utf8.encode stored.id, stored.body) := by
  rcases entry with ⟨key, body⟩
  unfold ofEntry
  constructor
  · intro h
    split at h
    · rename_i id hid
      obtain rfl := Except.ok.inj h
      rw [Utf8.encode_of_decode hid]
    · cases h
  · intro h
    obtain ⟨rfl, rfl⟩ := Prod.mk.inj h
    rw [Utf8.decode_encode]

theorem StoredDocument.ofEntry_eq_error_iff {entry : Bytes × Bytes} :
    (∃ error, ofEntry entry = .error error) ↔ ∃ fault, Utf8.decode entry.1 = .error fault := by
  unfold ofEntry
  split <;> simp_all

namespace Store

def Holds (documents : Store) (id : String) (document : Document) : Prop :=
  ∃ body, documents.entries.get? (Utf8.encode id) = some body ∧ decodeBody body = .ok document

def Unreadable (documents : Store) (id : String) : Prop :=
  ∃ body error, documents.entries.get? (Utf8.encode id) = some body ∧
    decodeBody body = .error error

/-- Some key is no text, or some body cannot be read. -/
def HasBadDocument (documents : Store) : Prop :=
  ∃ entry ∈ documents.entries.entries,
    (∃ fault, Utf8.decode entry.1 = .error fault) ∨ ∃ error, decodeBody entry.2 = .error error

def documentAt (documents : Store) (id : String) : Except Error Document :=
  match documents.entries.get? (Utf8.encode id) with
  | some body => decodeBody body
  | none => .error (.notFound id)

/-- Asking for a document is asking what is held. -/
theorem documentAt_eq_ok_iff {documents : Store} {id : String} {document : Document} :
    documents.documentAt id = .ok document ↔ documents.Holds id document := by
  unfold documentAt Holds
  split <;> simp_all

/-- An id has one document. -/
theorem Holds.unique {documents : Store} {id : String} {document other : Document}
    (h : documents.Holds id document) (h' : documents.Holds id other) : document = other :=
  Except.ok.inj ((documentAt_eq_ok_iff.mpr h).symm.trans (documentAt_eq_ok_iff.mpr h'))

/-- An id has a document, or none, or one that cannot be read. -/
theorem documentAt_cases (documents : Store) (id : String) :
    (∃ document, documents.documentAt id = .ok document ∧ ¬ documents.Unreadable id) ∨
      (documents.documentAt id = .error (.notFound id) ∧ ¬ documents.Unreadable id) ∨
      ∃ fault, documents.documentAt id = .error (.json fault) ∧ documents.Unreadable id := by
  unfold documentAt Unreadable
  cases documents.entries.get? (Utf8.encode id) with
  | none => simp
  | some body => cases h : Json.parseDocument body <;> simp [decodeBody, h, Except.mapError]

/-- A body that cannot be read under some id is a bad document. -/
theorem hasBadDocument_of_unreadable {documents : Store} {id : String}
    (h : documents.Unreadable id) : documents.HasBadDocument := by
  obtain ⟨body, error, hbody, herror⟩ := h
  exact ⟨_, OrderedMap.mem_entries_iff.mpr hbody, .inr ⟨error, herror⟩⟩

section unchanged

variable {before after : Store}

theorem Unchanged.holds_iff (h : before.Unchanged after) {id : String} {document : Document} :
    after.Holds id document ↔ before.Holds id document := by
  unfold Holds
  rw [h.entries]

theorem Unchanged.documentAt_eq (h : before.Unchanged after) (id : String) :
    after.documentAt id = before.documentAt id := by
  unfold documentAt
  rw [h.entries]

theorem Unchanged.unreadable_iff (h : before.Unchanged after) {id : String} :
    after.Unreadable id ↔ before.Unreadable id := by
  unfold Unreadable
  rw [h.entries]

theorem Unchanged.hasBadDocument_iff (h : before.Unchanged after) :
    after.HasBadDocument ↔ before.HasBadDocument := by
  unfold HasBadDocument
  rw [h.entries]

end unchanged

/-- Getting a document changes no entry, and tells what stands there unless the call fails. -/
theorem getDocument_cases (documents : Store) (id : String) :
    ∃ after, documents.Unchanged after ∧
      (documents.getDocument id = (documents.documentAt id, after) ∨
        ¬ documents.Spared after ∧
          ∃ fault, documents.getDocument id = (.error (.store fault), after)) := by
  obtain ⟨after, hafter, hget | ⟨hspared, fault, hget⟩⟩ :=
    documents.get_cases (Utf8.encode id)
  · refine ⟨after, hafter, ?_⟩
    left
    unfold getDocument documentAt
    rw [hget]
    cases documents.entries.get? (Utf8.encode id) <;> rfl
  · refine ⟨after, hafter, ?_⟩
    right
    refine ⟨hspared, fault, ?_⟩
    unfold getDocument
    rw [hget]

theorem getDocument_of_not_failsNext {documents : Store} (h : documents.gets.failsNext = false)
    (id : String) : (documents.getDocument id).1 = documents.documentAt id := by
  unfold getDocument get documentAt
  rw [h]
  cases documents.entries.get? (Utf8.encode id) <;> rfl

/-- Putting a document writes its text, or fails and changes nothing. -/
theorem putDocument_cases (documents : Store) (id : String) (document : Document) :
    ∃ after, documents.Follows after ∧
      (documents.putDocument id document = (.ok (), after) ∧
          after.entries =
            documents.entries.insert (Utf8.encode id) (Json.object document).bytes ∨
        ¬ documents.Spared after ∧
          (∃ error, documents.putDocument id document = (.error error, after)) ∧
          after.entries = documents.entries) := by
  obtain ⟨after, hfollows, ⟨hset, hentries⟩ | ⟨hspared, ⟨fault, hset⟩, hentries⟩⟩ :=
    documents.set_cases (Utf8.encode id) (Json.object document).bytes
  · refine ⟨after, hfollows, ?_⟩
    left
    refine ⟨?_, hentries⟩
    unfold putDocument
    rw [hset]
    rfl
  · refine ⟨after, hfollows, ?_⟩
    right
    refine ⟨hspared, ⟨.store fault, ?_⟩, hentries⟩
    unfold putDocument
    rw [hset]
    rfl

section reliable

variable {documents : Store} (h : documents.Reliable)

include h

theorem getDocument_of_reliable (id : String) :
    (documents.getDocument id).1 = documents.documentAt id := by
  obtain ⟨after, -, hget | ⟨hspared, -⟩⟩ := documents.getDocument_cases id
  · rw [hget]
  · exact absurd (.inl h) hspared

theorem hasDocument_of_reliable (id : String) :
    (documents.hasDocument id).1 = .ok (documents.entries.get? (Utf8.encode id)).isSome := by
  obtain ⟨after, -, hget | ⟨hspared, -⟩⟩ := documents.get_cases (Utf8.encode id)
  · rw [hasDocument, hget]
    rfl
  · exact absurd (.inl h) hspared

theorem countDocuments_of_reliable : (documents.countDocuments).1 = .ok documents.size :=
  congrArg (Except.mapError Error.store) (count_of_reliable h)

end reliable

/-- A scan of a reliable store shows all entries. -/
theorem storedDocuments_of_reliable {documents : Store} (h : documents.Reliable) :
    documents.storedDocuments = documents.entries.entries.map StoredDocument.ofEntry := by
  rw [storedDocuments, yields_of_reliable h, List.map_map]
  rfl

theorem length_storedDocuments {documents : Store}
    (h : ∀ error, .error error ∉ documents.storedDocuments) :
    documents.storedDocuments.length = documents.size := by
  rw [storedDocuments, List.length_map]
  exact length_yields fun fault hfault ↦ h (.store fault) (List.mem_map.mpr ⟨_, hfault, rfl⟩)

/-- A scan yields the documents in ascending order of their ids. -/
theorem pairwise_storedDocuments (documents : Store) :
    documents.storedDocuments.Pairwise fun x y ↦
      ∀ a b, x = .ok a → y = .ok b → a.id < b.id := by
  apply List.pairwise_map.mpr
  apply documents.pairwise_yields.imp
  intro x y hkeys a b ha hb
  cases x with
  | error => cases ha
  | ok first =>
    cases y with
    | error => cases hb
    | ok second =>
      have hlt := hkeys first second rfl rfl
      rw [StoredDocument.ofEntry_eq_ok_iff.mp ha, StoredDocument.ofEntry_eq_ok_iff.mp hb] at hlt
      exact Utf8.encode_lt_encode.mp hlt

/-- A stored document that a scan yields is one of the store. -/
theorem get?_of_mem_storedDocuments {documents : Store} {stored : StoredDocument}
    (h : .ok stored ∈ documents.storedDocuments) :
    documents.entries.get? (Utf8.encode stored.id) = some stored.body := by
  obtain ⟨result, hresult, hstored⟩ := List.mem_map.mp h
  cases result with
  | error fault => cases hstored
  | ok entry =>
    have hentry := StoredDocument.ofEntry_eq_ok_iff.mp hstored
    exact OrderedMap.mem_entries_iff.mp (hentry ▸ mem_entries_of_yields hresult)

/-- A scan yields each stored document, or an error. -/
theorem mem_storedDocuments_or_error {documents : Store} {id : String} {body : Bytes}
    (h : documents.entries.get? (Utf8.encode id) = some body) :
    .ok ⟨id, body⟩ ∈ documents.storedDocuments ∨
      ∃ error, .error error ∈ documents.storedDocuments := by
  rcases yields_entry_or_error (OrderedMap.mem_entries_iff.mpr h) with hok | ⟨fault, hfault⟩
  · exact .inl (List.mem_map.mpr ⟨_, hok, StoredDocument.ofEntry_eq_ok_iff.mpr rfl⟩)
  · exact .inr ⟨_, List.mem_map.mpr ⟨_, hfault, rfl⟩⟩

/-- A scan that reads the bodies meets an error. -/
def MeetsError (documents : Store) : Prop :=
  ∃ stored ∈ documents.storedDocuments, ∃ error, stored >>= StoredDocument.document = .error error

theorem meetsError_of_hasBadDocument {documents : Store} (h : documents.HasBadDocument) :
    documents.MeetsError := by
  obtain ⟨entry, hentry, hbad⟩ := h
  rcases yields_entry_or_error hentry with hok | ⟨fault, hfault⟩
  · refine ⟨StoredDocument.ofEntry entry, List.mem_map_of_mem hok, ?_⟩
    rcases hbad with hkey | ⟨error, hbody⟩
    · obtain ⟨error, herror⟩ := StoredDocument.ofEntry_eq_error_iff.mpr hkey
      exact ⟨error, by rw [herror]; rfl⟩
    · cases hstored : StoredDocument.ofEntry entry with
      | error error => exact ⟨error, rfl⟩
      | ok stored =>
        rw [StoredDocument.ofEntry_eq_ok_iff.mp hstored] at hbody
        exact ⟨error, hbody⟩
  · exact ⟨.error (.store fault), List.mem_map_of_mem hfault, .store fault, rfl⟩

/-- A scan of a reliable store meets an error just where a document is bad. -/
theorem meetsError_iff_of_reliable {documents : Store} (h : documents.Reliable) :
    documents.MeetsError ↔ documents.HasBadDocument := by
  apply Iff.intro _ meetsError_of_hasBadDocument
  intro hmeets
  rw [MeetsError, storedDocuments_of_reliable h] at hmeets
  obtain ⟨_, hmem, error, herror⟩ := hmeets
  obtain ⟨entry, hentry, rfl⟩ := List.mem_map.mp hmem
  refine ⟨entry, hentry, ?_⟩
  cases hstored : StoredDocument.ofEntry entry with
  | error fault => exact .inl (StoredDocument.ofEntry_eq_error_iff.mp ⟨fault, hstored⟩)
  | ok stored =>
    rw [hstored] at herror
    rw [StoredDocument.ofEntry_eq_ok_iff.mp hstored]
    exact .inr ⟨error, herror⟩

end Store

end PathStore
