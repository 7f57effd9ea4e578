import PathStore.Proofs.Database.Reindexing
import PathStore.Proofs.Document.PathValues
import PathStore.Proofs.Search.Reference

/-!
# The index and the scan agree

A query has the same hits with the index as without it when the index covers the documents: what the
index names beyond that is sorted out by matching, and what it leaves out no document would have
satisfied.  Rebuilding the index brings this about from any state that can be read.  An equality
whose path starts with an empty key is the exception, because path-values do not show that key.
-/

namespace PathStore.Database

/-- The query has hits both with the index and without it, and they are the same. -/
def Agrees (db : Database) (query : Query) : Prop :=
  ∃ hits, (db.searchQuery query true).1.map (·.hits) = .ok hits ∧
    (db.searchQuery query false).1.map (·.hits) = .ok hits

/-- Everything in the stores can be read. -/
structure Legible (db : Database) : Prop where
  documents : ¬ db.documents.HasBadDocument
  index : ∀ pathValue, ∃ ids, db.index.idsAt pathValue = .ok ids

section agreement

variable {db : Database} (query : Query)

theorem Legible.not_hasBadEntry (h : db.Legible) : ¬ db.HasBadEntry query := by
  apply Store.not_hasBadEntry_of_readable
  intro pathValue _
  exact h.index pathValue

theorem Legible.not_unreadable (h : db.Legible) (id : String) : ¬ db.documents.Unreadable id := by
  intro hbad
  exact h.documents (Store.hasBadDocument_of_unreadable hbad)

/-- With everything legible, a search succeeds.  Either the index has named ids for the query, and
decides, or all documents are matched. -/
theorem searchQuery_legible (hreliable : db.Reliable) (h : db.Legible) (allowIndex : Bool) :
    ∃ outcome, (db.searchQuery query allowIndex).1 = .ok outcome ∧
      ((allowIndex && query.isIndexed) ∧ (∃ other, db.Names query other) ∧
          IsHitList outcome.hits (fun id body ↦
            db.Names query id ∧ db.documents.Holds id body ∧ db.IsTaken query body) ∨
        ((allowIndex && query.isIndexed) → ¬ ∃ other, db.Names query other) ∧
          IsHitList outcome.hits fun id body ↦
            db.documents.Holds id body ∧ query.holdsIn body) := by
  obtain ⟨after, -, result, hresult, hanswer⟩ := db.searchQuery_cases query allowIndex
  rw [hresult]
  cases hanswer with
  | badEntry _ hcause => exact absurd (hcause hreliable) (h.not_hasBadEntry query)
  | unreadable _ _ hcause =>
    obtain ⟨id, -, hbad⟩ := hcause hreliable
    exact absurd hbad (h.not_unreadable id)
  | badDocument _ hcause => exact absurd (hcause hreliable) h.documents
  | named hconsults _ hnamed _ hhits => exact ⟨_, rfl, .inl ⟨hconsults, hnamed, hhits⟩⟩
  | scanned hnone _ hhits =>
    have hunnamed (hconsults : allowIndex && query.isIndexed) : ¬ ∃ other, db.Names query other :=
      not_exists.mpr (hnone hconsults).2
    exact ⟨_, rfl, .inr ⟨hunnamed, hhits⟩⟩

/-- With the index, a document is a hit if it satisfies the query and is named, or no id is. -/
theorem searchQuery_true (hreliable : db.Reliable) (h : db.Legible) (hverifies : db.verifiesHits) :
    ∃ outcome, (db.searchQuery query true).1 = .ok outcome ∧
      IsHitList outcome.hits fun id body ↦ db.documents.Holds id body ∧ query.holdsIn body ∧
        (query.isIndexed → (∃ other, db.Names query other) → db.Names query id) := by
  obtain ⟨outcome, houtcome, ⟨hconsults, hnamed, hhits⟩ | ⟨hnone, hhits⟩⟩ :=
    searchQuery_legible query hreliable h true
  · refine ⟨outcome, houtcome, hhits.congr ?_⟩
    intro id body
    have htaken : db.IsTaken query body ↔ query.holdsIn body := by simp [IsTaken, hverifies]
    rw [Bool.true_and] at hconsults
    simp only [htaken, hconsults, hnamed, true_imp_iff]
    exact and_rotate
  · refine ⟨outcome, houtcome, hhits.congr ?_⟩
    intro id body
    have hunnamed : query.isIndexed → (∃ other, db.Names query other) → db.Names query id := by
      intro hindexed hsome
      exact absurd hsome (hnone hindexed)
    rw [and_iff_left hunnamed]

/-- Without the index, the hits are the documents that satisfy the query. -/
theorem searchQuery_false (hreliable : db.Reliable) (h : db.Legible) :
    ∃ outcome, (db.searchQuery query false).1 = .ok outcome ∧
      IsHitList outcome.hits fun id body ↦ db.documents.Holds id body ∧ query.holdsIn body := by
  obtain ⟨outcome, houtcome, ⟨hconsults, -⟩ | ⟨-, hhits⟩⟩ :=
    searchQuery_legible query hreliable h false
  · cases hconsults
  · exact ⟨outcome, houtcome, hhits⟩

/-- Searches agree unless the index names an id, but not that of every document that satisfies the
query. -/
theorem agrees_iff (hreliable : db.Reliable) (h : db.Legible) (hverifies : db.verifiesHits) :
    db.Agrees query ↔ (query.isIndexed → (∃ other, db.Names query other) →
      ∀ id body, db.documents.Holds id body → query.holdsIn body → db.Names query id) := by
  obtain ⟨found, hfound, hnamed⟩ := searchQuery_true query hreliable h hverifies
  obtain ⟨scanned, hscanned, hall⟩ := searchQuery_false query hreliable h
  rw [Agrees, hfound, hscanned]
  constructor
  · intro hagrees hindexed hother id body hholds hquery
    rcases hagrees with ⟨hits, hleft, hright⟩
    have heq : scanned.hits = found.hits :=
      (Except.ok.inj hright).trans (Except.ok.inj hleft).symm
    have hmem := (hall.mem_iff ⟨id, body⟩).mpr ⟨hholds, hquery⟩
    rw [heq, hnamed.mem_iff] at hmem
    exact hmem.2.2 hindexed hother
  · intro hnames
    have hsame : IsHitList found.hits fun id body ↦
        db.documents.Holds id body ∧ query.holdsIn body := by
      apply hnamed.congr
      intro id body
      constructor
      · intro h
        exact ⟨h.1, h.2.1⟩
      · intro h
        exact ⟨h.1, h.2, fun hindexed hother ↦ hnames hindexed hother id body h.1 h.2⟩
    exact ⟨_, rfl, congrArg Except.ok (hall.unique hsame)⟩

variable {query}

/-- An index that covers the documents names all that satisfy the query. -/
theorem Covered.names (h : db.Covered) (hkeys : ∀ c ∈ query.equalities, ¬ c.key.StartsEmpty)
    {id : String} {body : Document} (hholds : db.documents.Holds id body)
    (hquery : query.holdsIn body) : db.Names query id := by
  have hsub := Query.pathValues_subset hquery fun c hc ↦ .inl (hkeys c hc)
  intro pathValue hmem
  exact h id body hholds pathValue (hsub pathValue hmem)

/-- What a covering index names beyond the hits is sorted out by matching. -/
theorem Covered.agrees (hcovered : db.Covered) (hreliable : db.Reliable) (h : db.Legible)
    (hverifies : db.verifiesHits) (hkeys : ∀ c ∈ query.equalities, ¬ c.key.StartsEmpty) :
    db.Agrees query := by
  rw [agrees_iff query hreliable h hverifies]
  intro _ _ id body hholds hquery
  exact hcovered.names hkeys hholds hquery

end agreement

/-- All sizes fit into 64 bits, also when the ids of all documents are added to an entry. -/
structure FitsMachine (db : Database) : Prop where
  length : ∀ entry ∈ db.documents.entries.entries, entry.1.length < 2 ^ 64
  size : ∀ pathValue ids, db.index.idsAt pathValue = .ok ids →
    ids.size + db.documents.size < 2 ^ 64

/-- The ids in the entry of a path-value and those of the documents with it. -/
def idsNamedOrWith (db : Database) (pathValue : String) : List String :=
  (match db.index.idsAt pathValue with
    | .ok ids => ids.toList
    | .error _ => []) ++ db.documents.idsWith pathValue

theorem idsNamedOrWith_of_ok {db : Database} {pathValue : String} {ids : IdSet}
    (h : db.index.idsAt pathValue = .ok ids) :
    db.idsNamedOrWith pathValue = ids.toList ++ db.documents.idsWith pathValue := by
  rw [idsNamedOrWith, h]

theorem Legible.within {db : Database} (h : db.Legible) : db.index.Within db.idsNamedOrWith := by
  intro pathValue
  obtain ⟨ids, hids⟩ := h.index pathValue
  refine ⟨ids, hids, ?_⟩
  intro id hid
  rw [idsNamedOrWith_of_ok hids]
  exact List.mem_append_left _ hid

theorem FitsMachine.bounded {db : Database} (hfits : db.FitsMachine) (h : db.Legible) :
    Store.Bounded db.idsNamedOrWith := by
  constructor <;> intro pathValue <;> obtain ⟨ids, hids⟩ := h.index pathValue <;>
    rw [idsNamedOrWith_of_ok hids]
  · have hle := db.documents.length_idsWith_le pathValue
    have hlt := hfits.size pathValue ids hids
    rw [OrderedSet.size] at hlt
    rw [List.length_append]
    omega
  · intro id hmem
    rcases List.mem_append.mp hmem with hid | hid
    · exact (Store.fits_of_idsAt hids).length id hid
    · obtain ⟨document, ⟨body, hbody, -⟩, -⟩ := Store.mem_idsWith.mp hid
      exact hfits.length _ (OrderedMap.mem_entries_iff.mpr hbody)

/-- A query agrees after every rebuild that succeeds, and whenever the index covers the documents;
and a rebuild succeeds if no call of a store fails. -/
theorem reindex_recovers {db : Database} (h : db.Legible) (hverifies : db.verifiesHits)
    (query : Query) (hkeys : ∀ c ∈ query.equalities, ¬ c.key.StartsEmpty) :
    (db.FitsMachine → ∀ report after, db.reindex = (.ok report, after) → after.Reliable →
        after.Agrees query) ∧
      (db.FitsMachine → db.Reliable → ∃ report after, db.reindex = (.ok report, after) ∧
        after.Reliable) ∧
      (db.Reliable → db.Covered → db.Agrees query) := by
  have hallowed (pathValue id : String) (hid : id ∈ db.documents.idsWith pathValue) :
      id ∈ db.idsNamedOrWith pathValue := List.mem_append_right _ hid
  have hreindex (hfits : db.FitsMachine) := reindex_cases h.within (hfits.bounded h) hallowed
  refine ⟨?_, ?_, ?_⟩
  · intro hfits report after hafter hreliable
    obtain ⟨result, after', heq, hdocuments, hextends, hverifies', -, houtcome⟩ := hreindex hfits
    rw [hafter] at heq
    obtain ⟨rfl, rfl⟩ := Prod.mk.inj heq
    rcases houtcome with ⟨-, hcovered⟩ | ⟨⟨error, hcontra⟩, -⟩
    · have hlegible : after.Legible := by
        constructor
        · intro hbad
          exact h.documents (hdocuments.hasBadDocument_iff.mp hbad)
        · intro pathValue
          obtain ⟨ids, hids, -⟩ := hextends.within pathValue
          exact ⟨ids, hids⟩
      exact hcovered.agrees hreliable hlegible (hverifies'.trans hverifies) hkeys
    · cases hcontra
  · intro hfits hreliable
    obtain ⟨result, after, heq, hdocuments, hextends, -, -, houtcome⟩ := hreindex hfits
    rcases houtcome with ⟨⟨report, rfl⟩, -⟩ | ⟨-, hcause⟩
    · exact ⟨report, after, heq, hdocuments.reliable hreliable.documents,
        hextends.follows.reliable hreliable.index⟩
    · exact absurd (hcause hreliable.documents (.inl hreliable.index)) h.documents
  · intro hreliable hcovered
    exact hcovered.agrees hreliable h hverifies hkeys

section dangling

variable {key value : Bytes}

theorem get?_singleton {k : Bytes} {found : Bytes}
    (h : (OrderedMap.insert .empty key value : OrderedMap Bytes Bytes).get? k = some found) :
    k = key ∧ found = value := by
  rw [OrderedMap.get?_insert, OrderedMap.get?_empty] at h
  split at h
  · rename_i heq
    exact ⟨heq.symm, (Option.some.inj h).symm⟩
  · cases h

theorem idsAt_dangling (pathValue : String) :
    dangling.index.idsAt pathValue = .ok .empty ∨
      dangling.index.idsAt pathValue = .ok (.ofList ["a", "b"]) := by
  rw [Store.idsAt]
  split
  · rename_i bytes hbytes
    obtain ⟨-, rfl⟩ := get?_singleton hbytes
    exact .inr rfl
  · exact .inl rfl

theorem holds_dangling {id : String} {document : Document}
    (h : dangling.documents.Holds id document) :
    id = "a" ∧ document = [("k", .number (.integer 1))] := by
  obtain ⟨body, hbody, hdocument⟩ := h
  obtain ⟨hkey, rfl⟩ := get?_singleton hbody
  exact ⟨Utf8.encode_injective hkey, (Except.ok.inj hdocument).symm⟩

/-- The database with the dangling id, whose hits are verified. -/
def danglingVerified : Database :=
  { dangling with verifiesHits := true }

theorem legible_danglingVerified : danglingVerified.Legible := by
  constructor
  · intro hdocuments
    rcases hdocuments with ⟨entry, hentry, hbad⟩
    obtain rfl := List.mem_singleton.mp hentry
    rcases hbad with ⟨fault, hkey⟩ | ⟨error, hbody⟩
    · cases (Utf8.decode_encode "a").symm.trans hkey
    · cases hbody
  · intro pathValue
    rcases idsAt_dangling pathValue with hids | hids
    all_goals exact ⟨_, hids⟩

theorem fitsMachine_danglingVerified : danglingVerified.FitsMachine := by
  constructor
  · intro entry hentry
    obtain rfl := List.mem_singleton.mp hentry
    decide
  · intro pathValue ids hids
    rcases idsAt_dangling pathValue with h | h
    all_goals
      obtain rfl := Except.ok.inj (hids.symm.trans h)
      decide

theorem covered_danglingVerified : danglingVerified.Covered := by
  intro id document h
  obtain ⟨rfl, rfl⟩ := holds_dangling h
  have hnames : danglingVerified.index.Names ["k=1"] "a" := by
    intro pathValue hmem
    obtain rfl := List.mem_singleton.mp hmem
    exact ⟨.ofList ["a", "b"], rfl, by decide⟩
  exact hnames

theorem reindex_recovers_dangling :
    (∃ report after, danglingVerified.reindex = (.ok report, after) ∧
        after.Agrees [⟨["k"], .equal, "1"⟩]) ∧
      danglingVerified.Agrees [⟨["k"], .equal, "1"⟩] := by
  have hreliable : danglingVerified.Reliable := ⟨reliable_dangling.1, reliable_dangling.2⟩
  obtain ⟨hafter, hsucceeds, hcovered⟩ :=
    reindex_recovers legible_danglingVerified rfl [⟨["k"], .equal, "1"⟩] (by decide)
  obtain ⟨report, after, heq, hreliable'⟩ := hsucceeds fitsMachine_danglingVerified hreliable
  exact ⟨⟨report, after, heq, hafter fitsMachine_danglingVerified report after heq hreliable'⟩,
    hcovered hreliable covered_danglingVerified⟩

end dangling

end PathStore.Database
