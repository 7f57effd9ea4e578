import PathStore.Proofs.Search.Reference

/-!
# Queries as sets of terms

What a search returns depends on its query only through the terms of it: neither their order nor how
often one of them stands there makes a difference, whatever the stores hold.  Which error is
returned does depend on the order, since the first entry or body that cannot be read ends the
search.
-/

namespace PathStore

namespace Query

def SameTerms (query other : Query) : Prop :=
  ∀ comparison, comparison ∈ query ↔ comparison ∈ other

section sameTerms

variable {query other : Query} (h : query.SameTerms other)

include h

theorem SameTerms.mem_pathValues_iff (pathValue : String) :
    pathValue ∈ query.pathValues ↔ pathValue ∈ other.pathValues := by
  simp only [pathValues, equalities, List.mem_map, List.mem_filter, h _]

theorem SameTerms.isIndexed_eq : query.isIndexed = other.isIndexed := by
  have hempty : query.equalities = [] ↔ other.equalities = [] := by
    simp only [equalities, List.filter_eq_nil_iff, h _]
  rw [isIndexed, isIndexed, Bool.eq_iff_iff]
  simp only [Bool.not_eq_true', List.isEmpty_eq_false_iff, ne_eq, hempty]

theorem SameTerms.hasRange_eq : query.hasRange = other.hasRange := by
  have hempty : query.ranges = [] ↔ other.ranges = [] := by
    simp only [ranges, List.filter_eq_nil_iff, h _]
  rw [hasRange, hasRange, Bool.eq_iff_iff]
  simp only [Bool.not_eq_true', List.isEmpty_eq_false_iff, ne_eq, hempty]

/-- The same documents satisfy queries with the same terms. -/
theorem SameTerms.holdsIn_eq : query.holdsIn = other.holdsIn := by
  funext document
  rw [holdsIn, holdsIn, Bool.eq_iff_iff]
  simp only [List.all_eq_true, h _]

end sameTerms

end Query

namespace Database

section sameTerms

variable {query other : Query} (h : query.SameTerms other) (db : Database)

include h

/-- The index names the same ids. -/
theorem names_eq_of_sameTerms : db.Names query = db.Names other := by
  funext id
  simp only [Names, Store.Names, h.mem_pathValues_iff]

theorem hasBadEntry_eq_of_sameTerms : db.HasBadEntry query = db.HasBadEntry other := by
  simp only [HasBadEntry, Store.HasBadEntry, h.mem_pathValues_iff]

theorem isTaken_eq_of_sameTerms : db.IsTaken query = db.IsTaken other := by
  funext document
  rw [IsTaken, IsTaken, h.holdsIn_eq, h.hasRange_eq]

end sameTerms

/-- An answer speaks of the terms alone. -/
theorem Answer.congr {db : Database} {query other : Query} {allowIndex : Bool}
    {result : Except Error SearchOutcome} (h : db.Answer query allowIndex result)
    (hterms : query.SameTerms other) : db.Answer other allowIndex result := by
  have hindexed := hterms.isIndexed_eq
  have hentries := hasBadEntry_eq_of_sameTerms hterms db
  have hnames := names_eq_of_sameTerms hterms db
  have htaken := isTaken_eq_of_sameTerms hterms db
  have hholds := hterms.holdsIn_eq
  cases h with
  | badEntry hconsults hcause =>
    rw [hindexed] at hconsults
    rw [hentries] at hcause
    exact .badEntry hconsults hcause
  | unreadable hconsults hgood hcause =>
    rw [hindexed] at hconsults
    rw [hentries] at hgood
    rw [hnames] at hcause
    exact .unreadable hconsults hgood hcause
  | named hconsults hgood hnamed hreadable hhits =>
    rw [hindexed] at hconsults
    rw [hentries] at hgood
    rw [hnames] at hnamed hreadable hhits
    rw [htaken] at hhits
    exact .named hconsults hgood hnamed hreadable hhits
  | badDocument hnone hcause =>
    rw [hindexed, hentries, hnames] at hnone
    exact .badDocument hnone hcause
  | scanned hnone hreadable hhits =>
    rw [hindexed, hentries, hnames] at hnone
    rw [hholds] at hhits
    exact .scanned hnone hreadable hhits

section unique

variable {db : Database} (hreliable : db.Reliable) {query : Query} {allowIndex : Bool}
  {result other : Except Error SearchOutcome}

include hreliable

/-- Where a search may succeed, it can do nothing else. -/
theorem Answer.eq_ok {outcome : SearchOutcome} (h : db.Answer query allowIndex (.ok outcome))
    (h' : db.Answer query allowIndex result) : result = .ok outcome := by
  cases h with
  | named hconsults hgood hnamed hreadable hhits =>
    obtain ⟨id, hid⟩ := hnamed
    cases h' with
    | badEntry _ hcause => exact absurd (hcause hreliable) hgood
    | unreadable _ _ hcause =>
      obtain ⟨id, hid, hbad⟩ := hcause hreliable
      exact absurd hbad (hreadable id hid)
    | named _ _ _ _ hhits' => rw [hhits.unique hhits']
    | badDocument hnone | scanned hnone => exact absurd hid ((hnone hconsults).2 id)
  | scanned hnone hreadable hhits =>
    cases h' with
    | badEntry hconsults hcause => exact absurd (hcause hreliable) (hnone hconsults).1
    | unreadable hconsults _ hcause =>
      obtain ⟨id, hid, -⟩ := hcause hreliable
      exact absurd hid ((hnone hconsults).2 id)
    | named hconsults _ hnamed =>
      obtain ⟨id, hid⟩ := hnamed
      exact absurd hid ((hnone hconsults).2 id)
    | badDocument _ hcause => exact absurd (hcause hreliable) hreadable
    | scanned _ _ hhits' => rw [hhits.unique hhits']

/-- A search that may succeed can come out in one way only. -/
theorem Answer.toOption_eq (h : db.Answer query allowIndex result)
    (h' : db.Answer query allowIndex other) : result.toOption = other.toOption := by
  cases result with
  | ok outcome => rw [h.eq_ok hreliable h']
  | error error =>
    cases other with
    | ok outcome => rw [h'.eq_ok hreliable h]
    | error error' => rfl

end unique

/-- Queries with the same terms either both fail or both succeed, with the same strategy and the
same hits. -/
theorem searchQuery_sameTerms {db : Database} (hreliable : db.Reliable) {query other : Query}
    (h : query.SameTerms other) (allowIndex : Bool) :
    (db.searchQuery query allowIndex).1.toOption =
      (db.searchQuery other allowIndex).1.toOption := by
  obtain ⟨_, -, result, hresult, hquery⟩ := db.searchQuery_cases query allowIndex
  obtain ⟨_, -, result', hresult', hother⟩ := db.searchQuery_cases other allowIndex
  rw [hresult, hresult']
  exact (hquery.congr h).toOption_eq hreliable hother

/-- A database with a stale id, a dangling one, and a body that cannot be read. -/
def littered : Database :=
  let first := (Json.object [("k", .number (.integer 1)), ("l", .null)]).bytes
  let second := (Json.object [("k", .number (.integer 1))]).bytes
  let documents := ((Store.empty .documents).set (Utf8.encode "a") first).2
  let documents := (documents.set (Utf8.encode "b") second).2
  let ids := IdSet.encode (.ofList ["a", "b", "c"])
  let index := ((Store.empty .index).set (Utf8.encode "k=1") ids).2
  { empty true with
    documents := (documents.set (Utf8.encode "d") [0]).2
    index := (index.set (Utf8.encode "l=null") ids).2 }

theorem searchQuery_sameTerms_littered :
    (littered.searchQuery [⟨["k"], .equal, "1"⟩, ⟨["l"], .equal, "null"⟩, ⟨["k"], .equal, "1"⟩]
        true).1.toOption =
      (littered.searchQuery [⟨["l"], .equal, "null"⟩, ⟨["k"], .equal, "1"⟩] true).1.toOption ∧
    (littered.searchQuery [⟨["l"], .equal, "null"⟩, ⟨["k"], .equal, "1"⟩] true).1.toOption.map
      (fun outcome ↦ (outcome.strategy, outcome.hits.map (·.id))) = some (.index, ["a"]) := by
  have hreliable : littered.Reliable :=
    ⟨(((Store.reliable_empty _).set _ _).set _ _).set _ _,
      ((Store.reliable_empty _).set _ _).set _ _⟩
  refine ⟨searchQuery_sameTerms hreliable ?_ true, by rfl⟩
  intro comparison
  simp only [List.mem_cons, List.not_mem_nil, or_false]
  tauto

end Database

end PathStore
