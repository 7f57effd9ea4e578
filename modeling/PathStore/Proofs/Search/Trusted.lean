import PathStore.Proofs.Query.Reading
import PathStore.Proofs.Search.Additions

/-!
# Trusting the index

An index that names exactly the documents with each path-value may be taken at its word where
path-values cannot be mistaken for each other: no key is empty, and none holds a dot or an equals
sign.  Values may hold both, since the first equals sign ends the path.
-/

namespace PathStore

/-- The query asks for nothing but equalities, and all its keys are plain. -/
def Query.IsPlain (query : Query) : Prop :=
  ∀ comparison ∈ query, comparison.isEquality ∧ comparison.key.IsPlain

/-- For plain keys, having the path-values of the equalities is satisfying the query. -/
theorem Query.IsPlain.carries_iff {query : Query} {document : Document} (h : query.IsPlain)
    (hascend : (Json.object document).KeysAscend) (hkeys : (Json.object document).HasPlainKeys) :
    document.Carries query ↔ query.holdsIn document := by
  have hequalities : query.equalities = query :=
    List.filter_eq_self.mpr fun comparison hmem ↦ (h comparison hmem).1
  rw [Document.Carries, Query.pathValues, hequalities, List.forall_mem_map, Query.holdsIn,
    List.all_eq_true]
  apply forall₂_congr
  intro comparison hmem
  exact comparison.pathValue_mem_iff (h comparison hmem).1 (h comparison hmem).2 hascend hkeys

theorem Query.IsPlain.hasRange_eq_false {query : Query} (h : query.IsPlain) :
    query.hasRange = false := by
  have hranges : query.ranges = [] := by
    apply List.filter_eq_nil_iff.mpr
    intro comparison hmem
    simp [Comparison.isRange, (h comparison hmem).1]
  rw [Query.hasRange, hranges]
  rfl

theorem Store.Holds.keysAscend {documents : Store} {id : String} {document : Document}
    (h : documents.Holds id document) : (Json.object document).KeysAscend := by
  obtain ⟨body, -, hbody⟩ := h
  exact Json.keysAscend_of_decodeBody hbody

/-- Words are plain keys, since they hold no equals sign. -/
theorem Operand.Derives.isPlain_path {letters text : List Char}
    (h : (Operand.word letters).Derives text) : (Operand.word letters).path.IsPlain := by
  cases h with
  | word _ hchars =>
    intro key hkey
    obtain ⟨part, hpart, rfl⟩ := List.mem_map.mp hkey
    rw [String.toList_ofList]
    apply And.intro (not_mem_of_mem_splitAtEach hpart)
    intro hequals
    have hword := hchars '=' (mem_of_mem_splitAtEach hpart hequals)
    revert hword
    decide +kernel

/-- A text of equalities with words for keys is read as a plain query. -/
theorem DerivesQuery.exists_isPlain {terms : List Term} {text : String}
    (h : DerivesQuery terms text.toList)
    (hterms : ∀ term ∈ terms, term.operator = .equal ∧ ∃ word, term.key = .word word) :
    ∃ query, Query.parse text = .ok query ∧ query.IsPlain := by
  have hderives := Query.derives_iff.mpr ⟨terms, h, rfl⟩
  refine ⟨terms.map Term.comparison, Query.parse_eq_ok_iff.mpr hderives, ?_⟩
  intro comparison hcomparison
  obtain ⟨term, hmem, rfl⟩ := List.mem_map.mp hcomparison
  obtain ⟨hequal, word, hword⟩ := hterms term hmem
  obtain ⟨written, hwritten⟩ := h.derives_of_mem term hmem
  refine ⟨decide_eq_true hequal, ?_⟩
  cases hwritten with
  | mk hkey _ =>
    rw [hword] at hkey
    rw [Term.comparison, hword]
    exact hkey.isPlain_path

namespace Database

section trusting

variable {db : Database} {query : Query}

theorem Exact.legible (h : db.Exact) (hdocuments : ¬ db.documents.HasBadDocument) :
    db.Legible := by
  apply Legible.mk hdocuments
  intro pathValue
  obtain ⟨ids, hids, -⟩ := h pathValue
  exact ⟨ids, hids⟩

/-- An exact index names the documents with all path-values. -/
theorem Exact.names_iff (h : db.Exact) {id : String} {document : Document}
    (hholds : db.documents.Holds id document) : db.Names query id ↔ document.Carries query := by
  apply forall₂_congr
  intro pathValue _
  obtain ⟨ids, hids, hmem⟩ := h pathValue
  constructor
  · intro hnamed
    obtain ⟨others, hothers, hid⟩ := hnamed
    obtain rfl := Except.ok.inj (hids.symm.trans hothers)
    obtain ⟨other, hother, hpath⟩ := (hmem id).mp hid
    exact hholds.unique hother ▸ hpath
  · intro hpath
    exact ⟨ids, hids, (hmem id).mpr ⟨document, hholds, hpath⟩⟩

/-- All keys in the stored documents are plain, and none is empty. -/
def HasPlainKeys (db : Database) : Prop :=
  ∀ id document, db.documents.Holds id document → (Json.object document).HasPlainKeys

/-- For plain keys, an exact index can be taken at its word. -/
theorem Exact.agrees (h : db.Exact) (hreliable : db.Reliable)
    (hdocuments : ¬ db.documents.HasBadDocument) (hkeys : db.HasPlainKeys)
    (htrusts : db.verifiesHits = false) (hquery : query.IsPlain) : db.Agrees query := by
  have hlegible := h.legible hdocuments
  obtain ⟨scanned, hscanned, hall⟩ := searchQuery_false query hreliable hlegible
  obtain ⟨found, hfound, ⟨-, -, hnamed⟩ | ⟨-, hnamed⟩⟩ :=
    searchQuery_legible query hreliable hlegible true
  · have hsame : IsHitList found.hits fun id body ↦
        db.documents.Holds id body ∧ query.holdsIn body := by
      apply hnamed.congr
      intro id body
      have htaken : db.IsTaken query body := .inr ⟨htrusts, hquery.hasRange_eq_false⟩
      rw [and_iff_left htaken, and_comm]
      apply and_congr_right
      intro hholds
      calc
        db.Names query id ↔ body.Carries query := h.names_iff hholds
        _ ↔ query.holdsIn body :=
          hquery.carries_iff hholds.keysAscend (hkeys id body hholds)
    rw [Agrees, hfound, hscanned]
    exact ⟨_, rfl, congrArg Except.ok (hall.unique hsame)⟩
  · rw [Agrees, hfound, hscanned]
    exact ⟨_, rfl, congrArg Except.ok (hall.unique hnamed)⟩

/-- Where the index is exact and no key is empty or holds a mark, searches for equalities with such
keys agree although no hit is verified; so do all texts of equalities whose keys are words. -/
theorem trusted_agrees (hreliable : db.Reliable) (hdocuments : ¬ db.documents.HasBadDocument)
    (hkeys : db.HasPlainKeys) (hexact : db.Exact) (htrusts : db.verifiesHits = false) :
    (∀ query : Query, query.IsPlain → db.Agrees query) ∧
      ∀ (text : String) (terms : List Term) (duration : Duration),
        DerivesQuery terms text.toList →
        (∀ term ∈ terms, term.operator = .equal ∧ ∃ word, term.key = .word word) →
        db.SearchesAgree text duration := by
  have hagrees (query : Query) (hquery : query.IsPlain) : db.Agrees query :=
    hexact.agrees hreliable hdocuments hkeys htrusts hquery
  apply And.intro hagrees
  intro text terms duration hderives hterms
  obtain ⟨query, hparse, hquery⟩ := hderives.exists_isPlain hterms
  exact (searchesAgree_iff hparse duration).mpr (hagrees query hquery)

end trusting

/-- Values with both marks, and a value that looks like the rest of another path-value. -/
def markedPairs : List (String × Document) :=
  [("1", [("a", .object [("b", .string "c=d.e")])]), ("2", [("a", .string "b=c")]),
    ("é", [("a", .object [("b", .string "c=d.e")]), ("z", .array [.null])])]

def trusting : Database :=
  { (empty true).run (additionsOf markedPairs) with verifiesHits := false }

theorem hasPlainKeys_marked : ∀ pair ∈ markedPairs, (Json.object pair.2).HasPlainKeys := by
  have hleaf {value : Json} (h : ∀ members, value ≠ .object members) : value.HasPlainKeys :=
    Json.hasPlainKeys_of_not_object h
  have hinner : (Json.object [("b", .string "c=d.e")]).HasPlainKeys :=
    Json.hasPlainKeys_object (List.forall_mem_singleton.mpr ⟨by decide, by decide, hleaf nofun⟩)
  intro pair hmem
  simp only [markedPairs, List.mem_cons, List.not_mem_nil, or_false] at hmem
  rcases hmem with rfl | rfl | rfl <;> apply Json.hasPlainKeys_object
  · exact List.forall_mem_singleton.mpr ⟨by decide, by decide, hinner⟩
  · exact List.forall_mem_singleton.mpr ⟨by decide, by decide, hleaf nofun⟩
  · exact List.forall_mem_cons.mpr ⟨⟨by decide, by decide, hinner⟩,
      List.forall_mem_singleton.mpr ⟨by decide, by decide, hleaf nofun⟩⟩

theorem trusted_agrees_marked :
    trusting.Agrees [⟨["a", "b"], .equal, "c=d.e"⟩] ∧
      trusting.SearchesAgree "a.b:\"c=d.e\" a:z" ⟨0⟩ := by
  have hdistinct : (markedPairs.map Prod.fst).Nodup := by decide
  have hfilled := filled_run hdistinct ⟨by decide, by decide⟩
  have hread : ReadBack markedPairs.reverse := by
    intro pair hmem
    simp only [markedPairs, List.mem_reverse, List.mem_cons, List.not_mem_nil, or_false] at hmem
    rcases hmem with rfl | rfl | rfl <;> rfl
  have hkeys : trusting.HasPlainKeys := by
    intro id document hholds
    have hmem := (hfilled.records.holds_iff_mem hread).mp hholds
    exact hasPlainKeys_marked _ (List.mem_reverse.mp hmem)
  have hdocuments : ¬ trusting.documents.HasBadDocument := by
    intro hbad
    obtain ⟨pair, hmem, error, herror⟩ := hfilled.hasBadDocument_iff.mp hbad
    cases (hread pair hmem).symm.trans herror
  have hreliable : trusting.Reliable := ⟨hfilled.reliable.documents, hfilled.reliable.index⟩
  have hexact : trusting.Exact := hfilled.records.exact hread hfilled.indexes
  obtain ⟨hqueries, htexts⟩ := trusted_agrees hreliable hdocuments hkeys hexact rfl
  constructor
  · apply hqueries
    intro comparison hmem
    obtain rfl := List.mem_singleton.mp hmem
    exact ⟨rfl, by decide⟩
  · have hword (text : List Char) (h : text.all isWordChar) : ∀ c ∈ text, isWordChar c :=
      List.all_eq_true.mp h
    have hfirst : Term.Derives ⟨.word "a.b".toList, .equal, .quoted "c=d.e".toList⟩ _ :=
      .mk (.word (by decide) (hword _ (by decide +kernel))) (.quoted (by decide))
    have hsecond : Term.Derives ⟨.word ['a'], .equal, .word ['z']⟩ _ :=
      .mk (.word (by decide) (hword _ (by decide +kernel)))
        (.word (by decide) (hword _ (by decide +kernel)))
    have hblank : IsGap [' '] := List.forall_mem_singleton.mpr rfl
    have hterms := DerivesTerms.more hfirst hblank (by decide) (.one hsecond)
    have hnone : IsGap [] := List.forall_mem_nil _
    exact htexts _ _ ⟨0⟩ (.some hnone hterms hnone) (by simp)

end Database

end PathStore
