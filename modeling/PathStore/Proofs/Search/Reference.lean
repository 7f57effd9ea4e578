import PathStore.Database
import PathStore.Proofs.Search.Strategies

/-!
# What a search returns

A search with stores that do not fail is determined by the entries of the two stores.  The index is
consulted if that is allowed and the query has an equality.  An entry that cannot be read is then an
error; otherwise the ids that the entries of all equalities name decide.  If there is one, the hits
are found among them; if there is none, or the index is not consulted, all documents are looked at.
-/

namespace PathStore.Database

/-- What searching does to a database. -/
structure Kept (before after : Database) : Prop where
  documents : before.documents.Unchanged after.documents
  index : before.index.Unchanged after.index
  metrics : after.metrics = before.metrics
  verifiesHits : after.verifiesHits = before.verifiesHits

/-- No call of either store fails from now on. -/
structure Reliable (db : Database) : Prop where
  documents : db.documents.Reliable
  index : db.index.Reliable

theorem Kept.reliable {before after : Database} (h : before.Kept after)
    (hreliable : before.Reliable) : after.Reliable :=
  ⟨h.documents.reliable hreliable.documents, h.index.reliable hreliable.index⟩

theorem Kept.trans {first second third : Database} (h : first.Kept second)
    (h' : second.Kept third) : first.Kept third :=
  ⟨h.documents.trans h'.documents, h.index.trans h'.index, h'.metrics.trans h.metrics,
    h'.verifiesHits.trans h.verifiesHits⟩

section searching

variable (db : Database) (query : Query)

def Names (id : String) : Prop :=
  db.index.Names query.pathValues id

def HasBadEntry : Prop :=
  db.index.HasBadEntry query.pathValues

/-- The document is a hit if its id is named: it satisfies the query, or nobody asks. -/
def IsTaken (document : Document) : Prop :=
  query.holdsIn document ∨ db.verifiesHits = false ∧ query.hasRange = false

/-- A fetched document is a hit if it satisfies the query or nobody asks. -/
theorem accepts_iff (document : Document) :
    accepts query db document ↔ db.IsTaken query document := by
  unfold accepts IsTaken
  cases query.hasRange <;> cases db.verifiesHits <;> simp

/-- How a search may come out. -/
inductive Answer (allowIndex : Bool) : Except Error SearchOutcome → Prop
  | badEntry {error : Error} (hconsults : allowIndex && query.isIndexed)
      (hcause : db.Reliable → db.HasBadEntry query) : Answer allowIndex (.error error)
  | unreadable {error : Error} (hconsults : allowIndex && query.isIndexed)
      (hentries : ¬ db.HasBadEntry query)
      (hcause : db.Reliable → ∃ id, db.Names query id ∧ db.documents.Unreadable id) :
      Answer allowIndex (.error error)
  | named {hits : List SearchHit} (hconsults : allowIndex && query.isIndexed)
      (hentries : ¬ db.HasBadEntry query) (hnamed : ∃ id, db.Names query id)
      (hreadable : ∀ id, db.Names query id → ¬ db.documents.Unreadable id)
      (hhits : IsHitList hits fun id body ↦
        db.Names query id ∧ db.documents.Holds id body ∧ db.IsTaken query body) :
      Answer allowIndex (.ok ⟨hits, .index⟩)
  | badDocument {error : Error}
      (hnone : allowIndex && query.isIndexed → ¬ db.HasBadEntry query ∧ ∀ id, ¬ db.Names query id)
      (hcause : db.Reliable → db.documents.HasBadDocument) : Answer allowIndex (.error error)
  | scanned {hits : List SearchHit}
      (hnone : allowIndex && query.isIndexed → ¬ db.HasBadEntry query ∧ ∀ id, ¬ db.Names query id)
      (hreadable : ¬ db.documents.HasBadDocument)
      (hhits : IsHitList hits fun id body ↦ db.documents.Holds id body ∧ query.holdsIn body) :
      Answer allowIndex (.ok ⟨hits, .fullScan⟩)

end searching

/-! ## The answer -/

section answer

variable (db : Database) (query : Query)

/-- A full scan finds the documents that satisfy the query, or meets an error. -/
theorem fullScan_cases :
    ∃ after, db.Kept after ∧
      ((∃ hits, db.fullScan query = (.ok ⟨hits, .fullScan⟩, after) ∧
          IsHitList hits fun id body ↦ db.documents.Holds id body ∧ query.holdsIn body) ∧
          ¬ db.documents.MeetsError ∨
        (∃ error, db.fullScan query = (.error error, after)) ∧ db.documents.MeetsError) := by
  obtain ⟨documents, hdocuments, hscan⟩ := db.documents.scanFor_cases query.holdsIn
  refine ⟨{ db with documents := documents }, ⟨hdocuments, .refl _, rfl, rfl⟩, ?_⟩
  rcases hscan with ⟨⟨hits, hscan, hhits⟩, hmeets⟩ | ⟨⟨error, hscan⟩, hmeets⟩
  · left
    refine ⟨⟨hits, ?_, hhits⟩, hmeets⟩
    rw [fullScan, onDocuments, hscan]
    rfl
  · right
    refine ⟨⟨error, ?_⟩, hmeets⟩
    rw [fullScan, onDocuments, hscan]
    rfl

/-- A scan is the answer when the index has not narrowed the query down. -/
theorem answer_fullScan {before : Database} (hkept : db.Kept before) {allowIndex : Bool}
    (hnone : allowIndex && query.isIndexed → ¬ db.HasBadEntry query ∧ ∀ id, ¬ db.Names query id) :
    ∃ after, db.Kept after ∧ ∃ result, before.fullScan query = (result, after) ∧
      db.Answer query allowIndex result := by
  obtain ⟨after, hafter, hscan⟩ := before.fullScan_cases query
  have hbad := hkept.documents.hasBadDocument_iff
  refine ⟨after, hkept.trans hafter, ?_⟩
  rcases hscan with ⟨⟨hits, hscan, hhits⟩, hmeets⟩ | ⟨⟨error, hscan⟩, hmeets⟩
  · refine ⟨_, hscan, .scanned hnone ?_ ?_⟩
    · intro h
      exact hmeets (Store.meetsError_of_hasBadDocument (hbad.mpr h))
    · apply hhits.congr
      intro id body
      rw [hkept.documents.holds_iff]
  · refine ⟨_, hscan, .badDocument hnone ?_⟩
    intro hreliable
    have hdocuments := (hkept.reliable hreliable).documents
    exact hbad.mp ((Store.meetsError_iff_of_reliable hdocuments).mp hmeets)

/-- Fetching is the answer when the index has named ids. -/
theorem answer_fetch {before : Database} (hkept : db.Kept before) {allowIndex : Bool}
    (hconsults : allowIndex && query.isIndexed) (hentries : ¬ db.HasBadEntry query)
    {ids : List String} (hids : ids.Pairwise (· < ·)) (hne : ids ≠ [])
    (hnames : ∀ id, id ∈ ids ↔ db.Names query id) :
    ∃ after, db.Kept after ∧ ∃ hits,
      before.onDocuments (Store.fetch (before.accepts query) · ids) = (hits, after) ∧
      db.Answer query allowIndex (hits.map (⟨·, .index⟩)) := by
  obtain ⟨documents, hdocuments, hfetched⟩ :=
    before.documents.fetch_cases (before.accepts query) ids
  have hafter : before.Kept { before with documents := documents } :=
    ⟨hdocuments, .refl _, rfl, rfl⟩
  refine ⟨_, hkept.trans hafter, ?_⟩
  rcases hfetched with ⟨hfetch, hreadable⟩ | ⟨⟨error, hfetch⟩, hcause⟩
  · refine ⟨.ok _, by rw [onDocuments, hfetch], .named hconsults hentries ?_ ?_ ?_⟩
    · obtain ⟨id, hid⟩ := List.exists_mem_of_ne_nil ids hne
      exact ⟨id, (hnames id).mp hid⟩
    · intro id hid hbad
      exact hreadable id ((hnames id).mpr hid) (hkept.documents.unreadable_iff.mpr hbad)
    · apply (before.documents.isHitList_filterMap_hitAt? (before.accepts query) hids).congr
      intro id body
      rw [hnames, hkept.documents.holds_iff, before.accepts_iff, IsTaken, hkept.verifiesHits]
      rfl
  · refine ⟨.error error, by rw [onDocuments, hfetch], .unreadable hconsults hentries ?_⟩
    intro hreliable
    obtain ⟨id, hid, hbad⟩ := hcause (.inl (hkept.reliable hreliable).documents)
    exact ⟨id, (hnames id).mp hid, hkept.documents.unreadable_iff.mp hbad⟩

theorem pathValues_ne_nil {query : Query} (h : query.isIndexed) : query.pathValues ≠ [] := by
  rw [Query.isIndexed, Bool.not_eq_true', List.isEmpty_eq_false_iff] at h
  intro hnil
  exact h (List.map_eq_nil_iff.mp hnil)

/-- A search comes out in one of the ways listed, and changes no store. -/
theorem searchQuery_cases (allowIndex : Bool) :
    ∃ after, db.Kept after ∧ ∃ result, db.searchQuery query allowIndex = (result, after) ∧
      db.Answer query allowIndex result := by
  unfold searchQuery
  split
  · rename_i hconsults
    have hne := pathValues_ne_nil (Bool.and_elim_right hconsults)
    obtain ⟨index, hindex, ⟨sets, hlookup, hsets⟩ | ⟨⟨error, hlookup⟩, hcause⟩⟩ :=
      db.index.lookupAll_cases query.pathValues
    · have hkept : db.Kept { db with index := index } := ⟨.refl _, hindex, rfl, rfl⟩
      have hentries : ¬ db.HasBadEntry query := Store.not_hasBadEntry_of_map_idsAt hsets
      have hnames (id : String) : id ∈ commonIds sets ↔ db.Names query id :=
        Store.mem_commonIds_iff_names hsets hne
      rw [onIndex, hlookup]
      dsimp only
      split
      · rename_i hempty
        apply db.answer_fullScan query hkept
        intro _
        apply And.intro hentries
        intro id hid
        rw [List.isEmpty_iff.mp hempty] at hnames
        exact List.not_mem_nil ((hnames id).mpr hid)
      · rename_i hnonempty
        have hsome : commonIds sets ≠ [] := mt List.isEmpty_iff.mpr hnonempty
        obtain ⟨after, hafter, hits, hfetch, hanswer⟩ :=
          db.answer_fetch query hkept hconsults hentries (pairwise_commonIds sets) hsome hnames
        exact ⟨after, hafter, _, by rw [hfetch], hanswer⟩
    · refine ⟨{ db with index := index }, ⟨.refl _, hindex, rfl, rfl⟩, _,
        by rw [onIndex, hlookup], ?_⟩
      apply Answer.badEntry hconsults
      intro hreliable
      exact hcause (.inl hreliable.index)
  · rename_i hconsults
    have hkept : db.Kept db := ⟨.refl _, .refl _, rfl, rfl⟩
    apply db.answer_fullScan query hkept
    intro h
    exact absurd h hconsults

end answer

/-- Beside what is counted, searching by text is running the query. -/
theorem search_eq_searchQuery (db : Database) {text : String} {query : Query}
    (h : Query.parse text = .ok query) (allowIndex : Bool) (duration : Duration) :
    (db.search text allowIndex duration).1 = (db.searchQuery query allowIndex).1 := by
  rw [search, h]
  dsimp only
  cases (db.searchQuery query allowIndex).1 <;> rfl

theorem recordSearch_indexFailures (strategy : Strategy) (duration : Duration) (metrics : Metrics) :
    (metrics.recordSearch strategy duration).indexFailures = metrics.indexFailures := by
  cases strategy <;> rfl

/-- A search leaves the stores unchanged, whether its text can be read or not. -/
theorem search_cases (db : Database) (text : String) (allowIndex : Bool) (duration : Duration) :
    ∃ result after, db.search text allowIndex duration = (result, after) ∧
      db.documents.Unchanged after.documents ∧ db.index.Unchanged after.index ∧
      after.metrics.indexFailures = db.metrics.indexFailures := by
  unfold search
  cases Query.parse text with
  | error error => exact ⟨_, _, rfl, .refl _, .refl _, rfl⟩
  | ok query =>
    obtain ⟨after, hkept, result, hresult, -⟩ := db.searchQuery_cases query allowIndex
    dsimp only
    rw [hresult]
    cases result with
    | error error =>
      refine ⟨_, _, rfl, hkept.documents, hkept.index, ?_⟩
      have hfailures := congrArg Metrics.indexFailures hkept.metrics
      exact hfailures
    | ok outcome =>
      refine ⟨_, _, rfl, hkept.documents, hkept.index, ?_⟩
      exact (recordSearch_indexFailures _ _ _).trans (congrArg Metrics.indexFailures hkept.metrics)

/-- Whatever has failed before, the hits of a search are stored documents, each found once. -/
theorem holds_of_search {db : Database} {text : String} {allowIndex : Bool} {duration : Duration}
    {outcome : SearchOutcome} (h : (db.search text allowIndex duration).1 = .ok outcome) :
    (outcome.hits.map (·.id)).Nodup ∧
      ∀ hit ∈ outcome.hits, db.documents.Holds hit.id hit.body := by
  cases hparse : Query.parse text with
  | error error =>
    rw [search, hparse] at h
    cases h
  | ok query =>
    rw [db.search_eq_searchQuery hparse] at h
    obtain ⟨after, -, result, hresult, hanswer⟩ := db.searchQuery_cases query allowIndex
    rw [hresult] at h
    obtain rfl : result = .ok outcome := h
    cases hanswer with
    | named _ _ _ _ hhits =>
      apply And.intro hhits.nodup_ids
      intro hit hmem
      exact ((hhits.mem_iff hit).mp hmem).2.1
    | scanned _ _ hhits =>
      apply And.intro hhits.nodup_ids
      intro hit hmem
      exact ((hhits.mem_iff hit).mp hmem).1

/-- What a search returns, by the contents of the stores alone. -/
structure Reference (db : Database) (query : Query) (allowIndex : Bool)
    (result : Except Error SearchOutcome) : Prop where
  badEntry : allowIndex && query.isIndexed → db.HasBadEntry query → ∃ error, result = .error error
  named_error : allowIndex && query.isIndexed → ¬ db.HasBadEntry query →
    (∃ id, db.Names query id) →
    ((∃ error, result = .error error) ↔ ∃ id, db.Names query id ∧ db.documents.Unreadable id)
  named_ok : allowIndex && query.isIndexed → ¬ db.HasBadEntry query →
    (∃ id, db.Names query id) → ∀ outcome, result = .ok outcome → outcome.strategy = .index ∧
      IsHitList outcome.hits fun id body ↦
        db.Names query id ∧ db.documents.Holds id body ∧ db.IsTaken query body
  scanned_error : (allowIndex && query.isIndexed →
      ¬ db.HasBadEntry query ∧ ∀ id, ¬ db.Names query id) →
    ((∃ error, result = .error error) ↔ db.documents.HasBadDocument)
  scanned_ok : (allowIndex && query.isIndexed →
      ¬ db.HasBadEntry query ∧ ∀ id, ¬ db.Names query id) →
    ∀ outcome, result = .ok outcome → outcome.strategy = .fullScan ∧
      IsHitList outcome.hits fun id body ↦ db.documents.Holds id body ∧ query.holdsIn body

/-- Where no call fails, a search is answered as the reference says: with the strategy, the exact
hits, or an error exactly where one is due. -/
theorem searchQuery_reference {db : Database} (hreliable : db.Reliable) (query : Query)
    (allowIndex : Bool) : db.Reference query allowIndex (db.searchQuery query allowIndex).1 := by
  obtain ⟨after, -, result, hresult, hanswer⟩ := db.searchQuery_cases query allowIndex
  rw [hresult]
  cases hanswer with
  | badEntry hconsults hcause =>
    have hbad := hcause hreliable
    exact {
      badEntry := fun _ _ ↦ ⟨_, rfl⟩
      named_error := fun _ hentries ↦ absurd hbad hentries
      named_ok := fun _ hentries ↦ absurd hbad hentries
      scanned_error := fun hnone ↦ absurd hbad (hnone hconsults).1
      scanned_ok := fun hnone ↦ absurd hbad (hnone hconsults).1 }
  | unreadable hconsults hentries hcause =>
    obtain ⟨id, hid, hbad⟩ := hcause hreliable
    exact {
      badEntry := fun _ _ ↦ ⟨_, rfl⟩
      named_error := fun _ _ _ ↦ iff_of_true ⟨_, rfl⟩ ⟨id, hid, hbad⟩
      named_ok := fun _ _ _ _ ↦ nofun
      scanned_error := fun hnone ↦ absurd hid ((hnone hconsults).2 id)
      scanned_ok := fun _ _ ↦ nofun }
  | named hconsults hentries hnamed hreadable hhits =>
    obtain ⟨id, hid⟩ := hnamed
    have hall : ¬ ∃ id, db.Names query id ∧ db.documents.Unreadable id := by
      intro h
      obtain ⟨other, hother, hbad⟩ := h
      exact hreadable other hother hbad
    exact {
      badEntry := fun _ hbad ↦ absurd hbad hentries
      named_error := fun _ _ _ ↦ iff_of_false nofun hall
      named_ok := by
        intro _ _ _ outcome h
        obtain rfl := Except.ok.inj h
        exact ⟨rfl, hhits⟩
      scanned_error := fun hnone ↦ absurd hid ((hnone hconsults).2 id)
      scanned_ok := fun hnone ↦ absurd hid ((hnone hconsults).2 id) }
  | badDocument hnone hcause =>
    exact {
      badEntry := fun _ _ ↦ ⟨_, rfl⟩
      named_error := fun hconsults _ ⟨id, hid⟩ ↦ absurd hid ((hnone hconsults).2 id)
      named_ok := fun _ _ _ _ ↦ nofun
      scanned_error := fun _ ↦ iff_of_true ⟨_, rfl⟩ (hcause hreliable)
      scanned_ok := fun _ _ ↦ nofun }
  | scanned hnone hreadable hhits =>
    exact {
      badEntry := fun hconsults hbad ↦ absurd hbad (hnone hconsults).1
      named_error := fun hconsults _ ⟨id, hid⟩ ↦ absurd hid ((hnone hconsults).2 id)
      named_ok := fun hconsults _ ⟨id, hid⟩ ↦ absurd hid ((hnone hconsults).2 id)
      scanned_error := fun _ ↦ iff_of_false nofun hreadable
      scanned_ok := by
        intro _ outcome h
        obtain rfl := Except.ok.inj h
        exact ⟨rfl, hhits⟩ }

def dangling : Database :=
  let body := (Json.object [("k", .number (.integer 1))]).bytes
  let ids := IdSet.encode (.ofList ["a", "b"])
  { empty false with
    documents := ((Store.empty .documents).set (Utf8.encode "a") body).2
    index := ((Store.empty .index).set (Utf8.encode "k=1") ids).2 }

theorem reliable_dangling : dangling.Reliable :=
  ⟨(Store.reliable_empty _).set _ _, (Store.reliable_empty _).set _ _⟩

theorem searchQuery_reference_dangling :
    dangling.Reference [⟨["k"], .equal, "1"⟩] true
      (dangling.searchQuery [⟨["k"], .equal, "1"⟩] true).1 :=
  searchQuery_reference reliable_dangling _ _

end PathStore.Database
