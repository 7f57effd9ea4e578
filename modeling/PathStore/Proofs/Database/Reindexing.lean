import PathStore.Database
import PathStore.Proofs.Index.Rebuilding

/-!
# Rebuilding the index of a database

The index covers the documents when each stands under all its path-values.  A rebuild that succeeds
ends in such an index, whatever the entries named before, and one that fails has still only added
ids to the path-values of their documents.
-/

namespace PathStore

namespace Store

def idsWith (documents : Store) (pathValue : String) : List String :=
  documents.entries.entries.filterMap fun entry ↦
    match Utf8.decode entry.1, decodeBody entry.2 with
    | .ok id, .ok document => if pathValue ∈ document.pathValues then some id else none
    | _, _ => none

theorem mem_idsWith {documents : Store} {pathValue id : String} :
    id ∈ documents.idsWith pathValue ↔
      ∃ document, documents.Holds id document ∧ pathValue ∈ document.pathValues := by
  simp only [idsWith, List.mem_filterMap, Holds]
  constructor
  · intro h
    rcases h with ⟨⟨key, body⟩, hentry, hid⟩
    split at hid
    · rename_i other document hkey hbody
      split at hid
      · rename_i hmem
        obtain rfl := Option.some.inj hid
        obtain rfl := Utf8.encode_of_decode hkey
        exact ⟨document, ⟨body, OrderedMap.mem_entries_iff.mp hentry, hbody⟩, hmem⟩
      · cases hid
    · cases hid
  · intro h
    rcases h with ⟨document, ⟨body, hget, hbody⟩, hmem⟩
    refine ⟨(Utf8.encode id, body), OrderedMap.mem_entries_iff.mpr hget, ?_⟩
    simp [Utf8.decode_encode, hbody, hmem]

/-- No path-value has more ids than there are documents. -/
theorem length_idsWith_le (documents : Store) (pathValue : String) :
    (documents.idsWith pathValue).length ≤ documents.size :=
  List.length_filterMap_le _ _

/-- A scan shows only documents that are there. -/
theorem holds_of_shows {documents : Store} {id : String} {document : Document}
    (h : Shows documents.storedDocuments id document) : documents.Holds id document := by
  obtain ⟨body, hmem, hbody⟩ := h
  exact ⟨body, get?_of_mem_storedDocuments hmem, hbody⟩

/-- A scan without failures shows all documents that can be read. -/
theorem shows_of_holds {documents : Store} {id : String} {document : Document}
    (hnone : ∀ error, .error error ∉ documents.storedDocuments)
    (h : documents.Holds id document) : Shows documents.storedDocuments id document := by
  obtain ⟨body, hget, hbody⟩ := h
  rcases mem_storedDocuments_or_error hget with hmem | ⟨error, herror⟩
  · exact ⟨body, hmem, hbody⟩
  · exact absurd herror (hnone error)

end Store

namespace Database

/-- Every document stands under all its path-values. -/
def Covered (db : Database) : Prop :=
  ∀ id document, db.documents.Holds id document → db.index.Names document.pathValues.toList id

/-- A rebuild changes nothing but the index and the gauge: if it succeeds the index covers the
documents, and if it fails the ids in it are still allowed. -/
theorem reindex_cases {db : Database} {allowed : String → List String}
    (h : db.index.Within allowed) (hbounded : Store.Bounded allowed)
    (hallows : ∀ pathValue, ∀ id ∈ db.documents.idsWith pathValue, id ∈ allowed pathValue) :
    ∃ result after, db.reindex = (result, after) ∧ db.documents.Unchanged after.documents ∧
      Store.Extends allowed db.index after.index ∧ after.verifiesHits = db.verifiesHits ∧
      after.metrics.indexFailures = db.metrics.indexFailures ∧
      ((∃ report, result = .ok report) ∧ after.Covered ∨
        (∃ error, result = .error error) ∧
          (db.documents.Reliable → db.index.Spared after.index → db.documents.HasBadDocument)) := by
  have hshown : Store.AllowsAll allowed db.documents.storedDocuments := by
    intro id document hshows pathValue hmem
    apply hallows
    exact Store.mem_idsWith.mpr ⟨document, Store.holds_of_shows hshows, hmem⟩
  obtain ⟨result, index, looked, hreindex, hextends, houtcome⟩ :=
    h.reindexFrom_cases hbounded hshown .empty
  have hdocuments := db.documents.unchanged_scanned looked
  unfold reindex
  rw [hreindex]
  rcases houtcome with ⟨⟨report, rfl⟩, hnone, hall⟩ | ⟨⟨error, rfl⟩, hcause⟩
  · refine ⟨_, _, rfl, hdocuments, hextends, rfl, rfl, ?_⟩
    left
    refine ⟨⟨report, rfl⟩, ?_⟩
    intro id document hid
    exact hall id document (Store.shows_of_holds hnone (hdocuments.holds_iff.mp hid))
  · refine ⟨_, _, rfl, hdocuments, hextends, rfl, rfl, ?_⟩
    right
    refine ⟨⟨error, rfl⟩, ?_⟩
    intro hreliable hspared
    obtain ⟨error, herror⟩ := hcause hspared
    exact (Store.meetsError_iff_of_reliable hreliable).mp ⟨_, herror, error, rfl⟩

end Database

end PathStore
