import PathStore.Proofs.Database.Runs
import PathStore.Proofs.Search.Agreement

/-!
# Searching what has been added

After documents have been added to an empty database, the index names a document for a query when
all path-values of the equalities are among its own, while the scan asks whether the document, as it
is read back, satisfies the query.  They can come apart in two ways.  A document may be read back
differently or not at all: nested too deeply, with a marked object inside, or with a
double-precision number whose digits lead to another one.  And joined paths do not tell the root
from a member of it with an empty key, so an equality may overlook documents that satisfy it.
-/

namespace PathStore

def additionsOf (pairs : List (String × Document)) : List Operation :=
  pairs.map fun pair ↦ .add pair.1 (.object pair.2)

/-- All path-values of the equalities are among those of the document. -/
def Document.Carries (document : Document) (query : Query) : Prop :=
  ∀ pathValue ∈ query.pathValues, pathValue ∈ document.pathValues

namespace Database

section additions

variable {db : Database} {pairs : List (String × Document)} {query : Query}

/-- The database has been filled with these documents, without any failure. -/
structure Filled (db : Database) (pairs : List (String × Document)) : Prop where
  records : db.Records pairs
  indexes : db.Indexes pairs
  reliable : db.Reliable
  verifiesHits : db.verifiesHits

theorem filled_empty : (empty true).Filled [] :=
  ⟨(Fresh.traced ⟨rfl, rfl⟩).records, nofun,
    ⟨Store.reliable_empty _, Store.reliable_empty _⟩, rfl⟩

/-- Adding a document without a failure fills the database further. -/
theorem Filled.add (h : db.Filled pairs) {id : String} {document : Document}
    (hnew : ∀ pair ∈ pairs, pair.1 ≠ id) (hfit : FitMachine ((id, document) :: pairs)) :
    (db.perform (.add id (.object document))).Filled ((id, document) :: pairs) := by
  have hfit' : ∀ other, (Json.object document).asDocument? = some other →
      FitMachine ((id, other) :: pairs) := by
    intro other hother
    obtain rfl := Option.some.inj hother
    exact hfit
  obtain ⟨result, after, hadd, hdocuments, hindex, hverifies, houtcome⟩ :=
    h.records.add_cases id (.object document) hnew hfit'
  rw [perform, hadd]
  have hreliable : after.Reliable :=
    ⟨hdocuments.reliable h.reliable.documents, hindex.reliable h.reliable.index⟩
  cases houtcome with
  | refused _ _ _ hcause => cases hcause h.reliable.documents
  | indexed hbody hrecords hgrows _ hnames =>
    obtain rfl := Option.some.inj hbody
    have hindexes : after.Indexes ((id, document) :: pairs) := by
      refine List.forall_mem_cons.mpr ⟨hnames, ?_⟩
      intro pair hmem
      exact hgrows.names (h.indexes pair hmem)
    exact ⟨hrecords, hindexes, hreliable, hverifies.trans h.verifiesHits⟩
  | unindexed _ _ _ _ hspared => exact absurd (.inl h.reliable.index) hspared

/-- Adding documents under distinct ids stores and indexes them all. -/
theorem filled_run (hdistinct : (pairs.map Prod.fst).Nodup) (hfit : FitMachine pairs) :
    ((empty true).run (additionsOf pairs)).Filled pairs.reverse := by
  induction pairs using List.reverseRecOn with
  | nil => exact filled_empty
  | append_singleton pairs pair ih =>
    have hrun : (empty true).run (additionsOf (pairs ++ [pair])) =
        ((empty true).run (additionsOf pairs)).perform (.add pair.1 (.object pair.2)) := by
      rw [additionsOf, List.map_append]
      exact List.foldl_append ..
    have hlength := hfit.count
    rw [List.length_append] at hlength
    rw [List.map_append, List.nodup_append] at hdistinct
    have hold : FitMachine pairs := by
      refine ⟨by omega, ?_⟩
      intro other hother
      exact hfit.length other (List.mem_append_left _ hother)
    have hnew : ∀ other ∈ pairs.reverse, other.1 ≠ pair.1 := by
      intro other hother
      exact hdistinct.2.2 _ (List.mem_map_of_mem (List.mem_reverse.mp hother)) _
        (List.mem_singleton_self _)
    have hfits : FitMachine (pair :: pairs.reverse) := by
      constructor
      · rw [List.length_cons, List.length_reverse]
        exact hlength
      · intro other hother
        apply hfit.length
        simpa [or_comm] using hother
    rw [hrun, List.reverse_append]
    exact (ih hdistinct.1 hold).add hnew hfits

theorem Filled.hasBadDocument_iff (h : db.Filled pairs) : db.documents.HasBadDocument ↔
    ∃ pair ∈ pairs, ∃ error, decodeBody (Json.object pair.2).bytes = .error error := by
  constructor
  · intro hdocuments
    rcases hdocuments with ⟨⟨key, body⟩, hentry, hbad⟩
    have hget := OrderedMap.mem_entries_iff.mp hentry
    obtain ⟨pair, hmem, heq⟩ := (h.records.documents key body).mp hget
    obtain ⟨rfl, rfl⟩ := Prod.mk.inj heq
    rcases hbad with ⟨fault, hfault⟩ | hbody
    · cases (Utf8.decode_encode pair.1).symm.trans hfault
    · exact ⟨pair, hmem, hbody⟩
  · intro hpair
    rcases hpair with ⟨pair, hmem, hbody⟩
    have hget := (h.records.documents _ _).mpr ⟨pair, hmem, rfl⟩
    exact ⟨_, OrderedMap.mem_entries_iff.mpr hget, .inr hbody⟩

/-- The index names the documents that have all path-values of the equalities. -/
theorem Filled.names_iff (h : db.Filled pairs) (hdistinct : (pairs.map Prod.fst).Nodup)
    (hindexed : query.isIndexed) {id : String} :
    db.Names query id ↔ ∃ document, (id, document) ∈ pairs ∧ document.Carries query := by
  constructor
  · intro hnames
    have hpaths (pathValue : String) (hmem : pathValue ∈ query.pathValues) :
        ∃ document, (id, document) ∈ pairs ∧ pathValue ∈ document.pathValues := by
      obtain ⟨ids, hids, hid⟩ := hnames pathValue hmem
      obtain ⟨others, hothers, hall⟩ := h.records.index pathValue
      obtain rfl := Except.ok.inj (hids.symm.trans hothers)
      exact mem_idsIn.mp (hall id hid)
    obtain ⟨first, hfirst⟩ := List.exists_mem_of_ne_nil _ (pathValues_ne_nil hindexed)
    obtain ⟨document, hdocument, -⟩ := hpaths first hfirst
    refine ⟨document, hdocument, ?_⟩
    intro pathValue hmem
    obtain ⟨other, hother, hpath⟩ := hpaths pathValue hmem
    -- One id has one document, so it is the same for all path-values.
    obtain ⟨-, rfl⟩ := Prod.mk.inj (List.inj_on_of_nodup_map hdistinct hother hdocument rfl)
    exact hpath
  · intro hdocument pathValue hpath
    rcases hdocument with ⟨document, hmem, hcarries⟩
    exact h.indexes _ hmem pathValue (hcarries pathValue hpath)

theorem Agrees.not_hasBadDocument (h : db.Agrees query) : ¬ db.documents.HasBadDocument := by
  obtain ⟨hits, -, hfalse⟩ := h
  obtain ⟨after, -, result, hresult, hanswer⟩ := db.searchQuery_cases query false
  rw [hresult] at hfalse
  cases hanswer with
  | badEntry hconsults => cases hconsults
  | unreadable hconsults => cases hconsults
  | named hconsults => cases hconsults
  | badDocument => cases hfalse
  | scanned _ hreadable => exact hreadable

/-- The index of such a database can be read. -/
theorem Filled.legible (h : db.Filled pairs) (hdocuments : ¬ db.documents.HasBadDocument) :
    db.Legible := by
  apply Legible.mk hdocuments
  intro pathValue
  obtain ⟨ids, hids, -⟩ := h.records.index pathValue
  exact ⟨ids, hids⟩

theorem Filled.legible_iff (h : db.Filled pairs) : db.Legible ↔
    ∀ pair ∈ pairs, ∃ document, decodeBody (Json.object pair.2).bytes = .ok document := by
  have hgood : ¬ db.documents.HasBadDocument ↔
      ∀ pair ∈ pairs, ∃ document, decodeBody (Json.object pair.2).bytes = .ok document := by
    rw [h.hasBadDocument_iff, not_exists]
    apply forall_congr'
    intro pair
    cases decodeBody (Json.object pair.2).bytes <;> simp
  rw [← hgood]
  exact ⟨Legible.documents, h.legible⟩

/-- Index and scan agree just when all documents can be read and, once the index names one, it names
all that satisfy the query. -/
theorem Filled.agrees_iff (h : db.Filled pairs) (hdistinct : (pairs.map Prod.fst).Nodup) :
    db.Agrees query ↔
      (∀ pair ∈ pairs, ∃ document, decodeBody (Json.object pair.2).bytes = .ok document) ∧
      (query.isIndexed → (∃ pair ∈ pairs, pair.2.Carries query) → ∀ pair ∈ pairs, ∀ document,
        decodeBody (Json.object pair.2).bytes = .ok document → query.holdsIn document →
          pair.2.Carries query) := by
  rw [← h.legible_iff]
  constructor
  · intro hagrees
    have hlegible := h.legible hagrees.not_hasBadDocument
    apply And.intro hlegible
    intro hindexed hcarried other hother document hread hquery
    obtain ⟨pair, hmem, hcarries⟩ := hcarried
    have hagree := (Database.agrees_iff query h.reliable hlegible h.verifiesHits).mp hagrees
    have hnamed := (h.names_iff hdistinct hindexed).mpr ⟨pair.2, hmem, hcarries⟩
    have hholds := h.records.holds_iff.mpr ⟨other.2, hother, hread⟩
    have hnames := hagree hindexed ⟨pair.1, hnamed⟩ other.1 document hholds hquery
    obtain ⟨original, horiginal, hresult⟩ := (h.names_iff hdistinct hindexed).mp hnames
    have hsame := congrArg Prod.snd (List.inj_on_of_nodup_map hdistinct horiginal hother rfl)
    exact hsame ▸ hresult
  · intro hconditions
    rcases hconditions with ⟨hlegible, hall⟩
    apply (Database.agrees_iff query h.reliable hlegible h.verifiesHits).mpr
    intro hindexed hnamed id body hholds hquery
    obtain ⟨other, hother⟩ := hnamed
    obtain ⟨document, hmem, hcarries⟩ := (h.names_iff hdistinct hindexed).mp hother
    obtain ⟨original, horiginal, hbody⟩ := h.records.holds_iff.mp hholds
    have hcarries' := hall hindexed ⟨_, hmem, hcarries⟩ _ horiginal body hbody hquery
    exact (h.names_iff hdistinct hindexed).mpr ⟨original, horiginal, hcarries'⟩

/-- The text has hits both with the index and without it, and they are the same. -/
def SearchesAgree (db : Database) (text : String) (duration : Duration) : Prop :=
  ∃ hits, (db.search text true duration).1.map (·.hits) = .ok hits ∧
    (db.search text false duration).1.map (·.hits) = .ok hits

/-- Searching by text is searching for the query that the text denotes. -/
theorem searchesAgree_iff {text : String} (hparse : Query.parse text = .ok query)
    (duration : Duration) : db.SearchesAgree text duration ↔ db.Agrees query := by
  rw [SearchesAgree, Agrees, search_eq_searchQuery db hparse, search_eq_searchQuery db hparse]

/-- The exact condition under which a search of the added documents finds the same with the index as
without it, and what is enough for it. -/
theorem searchesAgree_additions (hdistinct : (pairs.map Prod.fst).Nodup) (hfit : FitMachine pairs)
    {text : String} (hparse : Query.parse text = .ok query) (duration : Duration) :
    (((empty true).run (additionsOf pairs)).SearchesAgree text duration ↔
      (∀ pair ∈ pairs, ∃ document, decodeBody (Json.object pair.2).bytes = .ok document) ∧
      (query.isIndexed → (∃ pair ∈ pairs, pair.2.Carries query) → ∀ pair ∈ pairs, ∀ document,
        decodeBody (Json.object pair.2).bytes = .ok document → query.holdsIn document →
          pair.2.Carries query)) ∧
    (ReadBack pairs → (∀ c ∈ query.equalities, ∀ pair ∈ pairs, ¬ c.key.StartsEmpty ∨
        ∀ members, Entries.get? pair.2 "" ≠ some (.object members)) →
      ((empty true).run (additionsOf pairs)).SearchesAgree text duration) := by
  have h := filled_run hdistinct hfit
  have hreverse : (pairs.reverse.map Prod.fst).Nodup := by
    rw [List.map_reverse, List.nodup_reverse]
    exact hdistinct
  have hiff : ((empty true).run (additionsOf pairs)).Agrees query ↔ _ := h.agrees_iff hreverse
  simp only [List.mem_reverse] at hiff
  rw [searchesAgree_iff hparse, hiff]
  apply And.intro .rfl
  intro hread hkeys
  constructor
  · intro pair hmem
    exact ⟨_, hread pair hmem⟩
  · intro _ _ pair hmem document hbody hquery
    obtain rfl := Except.ok.inj ((hread pair hmem).symm.trans hbody)
    apply Query.pathValues_subset hquery
    intro c hc
    exact hkeys c hc pair hmem

end additions

/-- A path of two keys and a single key with a dot, which are joined to the same text. -/
def dottedPairs : List (String × Document) :=
  [("1", [("a", .object [("b", .number (.integer 1))])]), ("2", [("a.b", .string "1")])]

theorem searchesAgree_dotted :
    ((empty true).run (additionsOf dottedPairs)).SearchesAgree "a.b:1" ⟨0⟩ := by
  have hparse : Query.parse "a.b:1" = .ok [⟨["a", "b"], .equal, "1"⟩] := by decide +kernel
  have hread : ReadBack dottedPairs :=
    List.forall_mem_cons.mpr ⟨rfl, List.forall_mem_cons.mpr ⟨rfl, nofun⟩⟩
  refine (searchesAgree_additions (by decide) ⟨by decide, by decide⟩ hparse ⟨0⟩).2 hread ?_
  intro c hc pair _
  obtain rfl := List.mem_singleton.mp hc
  exact .inl (by decide)

/-- A member of what stands under an empty key, and a member whose key begins with the dot. -/
def emptyKeyPairs : List (String × Document) :=
  [("1", [("", .object [("a", .number (.integer 1))])]), ("2", [(".a", .number (.integer 1))])]

/-- The first document satisfies the query, but the index offers only the second, which does not. -/
theorem not_searchesAgree_emptyKey :
    Query.parse ".a:1" = .ok [⟨["", "a"], .equal, "1"⟩] ∧
      ¬ ((empty true).run (additionsOf emptyKeyPairs)).SearchesAgree ".a:1" ⟨0⟩ := by
  apply And.intro (by decide +kernel)
  intro hagree
  obtain ⟨hits, htrue, hfalse⟩ := hagree
  have hcount {result : Except Error SearchOutcome} (h : result.map (·.hits) = .ok hits) :
      result.toOption.map (·.hits.length) = some hits.length := by
    cases result with
    | error error => cases h
    | ok outcome => exact congrArg (some ·.length) (Except.ok.inj h)
  have hnone : (((empty true).run (additionsOf emptyKeyPairs)).search ".a:1" true
      ⟨0⟩).1.toOption.map (·.hits.length) = some 0 := by decide +kernel
  have hone : (((empty true).run (additionsOf emptyKeyPairs)).search ".a:1" false
      ⟨0⟩).1.toOption.map (·.hits.length) = some 1 := by decide +kernel
  have hzero : some 0 = some hits.length := hnone.symm.trans (hcount htrue)
  have hsingle : some 1 = some hits.length := hone.symm.trans (hcount hfalse)
  cases hzero.trans hsingle.symm

end Database

end PathStore
