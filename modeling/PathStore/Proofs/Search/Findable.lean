import PathStore.Proofs.Query.Writing
import PathStore.Proofs.Search.Additions

/-!
# Every indexed scalar can be asked for

A scalar of a stored document is found by the text that names its path and its rendering, with dots
between the keys, a colon, and the rendering in quotes unless it is a word.  The keys have to be
letters and digits, and the rendering must not hold a quote.  Nothing is said about the other hits
of such a text: where hits are not verified, there may be documents without the scalar among them.
-/

namespace PathStore

def Path.IsAlphanumeric (path : Path) : Prop :=
  ∀ key ∈ path, key ≠ "" ∧ ∀ c ∈ key.toList, isAlphanumeric c

namespace Path.IsAlphanumeric

variable {path : Path}

theorem not_startsEmpty (h : path.IsAlphanumeric) : ¬ path.StartsEmpty :=
  fun hstarts ↦ (h "" (List.mem_of_head? hstarts.1)).1 rfl

theorem dot_not_mem (h : path.IsAlphanumeric) : ∀ key ∈ path, '.' ∉ key.toList :=
  fun key hkey ↦ dot_not_mem_of_isAlphanumeric (h key hkey).2

/-- Alphanumeric keys with dots between them make up a word. -/
theorem isWordChar_of_mem (h : path.IsAlphanumeric) :
    ∀ c ∈ (".".intercalate path).toList, isWordChar c :=
  isWordChar_of_mem_intercalate fun key hkey ↦ (h key hkey).2

theorem toList_intercalate_ne_nil (h : path.IsAlphanumeric) (hne : path ≠ []) :
    (".".intercalate path).toList ≠ [] := by
  obtain ⟨key, rest, rfl⟩ := List.exists_cons_of_ne_nil hne
  have hkey : key.toList ≠ [] := mt String.toList_eq_nil_iff.mp (h key List.mem_cons_self).1
  cases rest with
  | nil => simpa using hkey
  | cons next rest => simp [String.intercalate_cons_cons]

/-- Such a path and any operand behind it are read as an equality. -/
theorem parse_equality (h : path.IsAlphanumeric) (hne : path ≠ []) {value : Operand}
    {text : String} (hvalue : value.Derives text.toList) :
    Query.parse (".".intercalate path ++ ":" ++ text) = .ok [⟨path, .equal, value.text⟩] := by
  let term : Term := ⟨.word (".".intercalate path).toList, .equal, value⟩
  have hkey : term.key.Derives (".".intercalate path).toList :=
    .word (h.toList_intercalate_ne_nil hne) h.isWordChar_of_mem
  have hterm : term.Derives (".".intercalate path ++ ":" ++ text).toList := by
    simpa [Operator.sign, term] using Term.Derives.mk hkey hvalue
  have hdenotes : term.Denotes ⟨path, .equal, value.text⟩ :=
    ⟨.word hne h.dot_not_mem, rfl, rfl⟩
  exact Query.parse_eq_ok_iff.mpr ⟨[term], hterm.derivesQuery, .cons hdenotes .nil⟩

end Path.IsAlphanumeric

namespace Database

section finding

variable {db : Database}

/-- The text has the document among the hits that the index finds. -/
def Finds (db : Database) (text : String) (hit : SearchHit) (duration : Duration) : Prop :=
  ∃ outcome, (db.search text true duration).1 = .ok outcome ∧ outcome.strategy = .index ∧
    hit ∈ outcome.hits

/-- An id that is named decides that the index answers. -/
theorem searchQuery_of_names {query : Query} (hreliable : db.Reliable) (h : db.Legible)
    (hindexed : query.isIndexed) {id : String} (hnames : db.Names query id) :
    ∃ outcome, (db.searchQuery query true).1 = .ok outcome ∧ outcome.strategy = .index ∧
      IsHitList outcome.hits fun id body ↦
        db.Names query id ∧ db.documents.Holds id body ∧ db.IsTaken query body := by
  obtain ⟨after, -, result, hresult, hanswer⟩ := db.searchQuery_cases query true
  rw [hresult]
  cases hanswer with
  | badEntry _ hcause => exact absurd (hcause hreliable) (h.not_hasBadEntry query)
  | unreadable _ _ hcause =>
    obtain ⟨other, -, hbad⟩ := hcause hreliable
    exact absurd hbad (h.not_unreadable other)
  | named _ _ _ _ hhits => exact ⟨_, rfl, rfl, hhits⟩
  | badDocument hnone _ => exact absurd hnames ((hnone hindexed).2 id)
  | scanned hnone _ _ => exact absurd hnames ((hnone hindexed).2 id)

/-- A query that holds in a document has it among the hits, if the index covers the document and
the query has an equality. -/
theorem Covered.finds (hcovered : db.Covered) (hreliable : db.Reliable) (h : db.Legible)
    {text : String} {query : Query} (hparse : Query.parse text = .ok query)
    (hindexed : query.isIndexed) (hkeys : ∀ c ∈ query.equalities, ¬ c.key.StartsEmpty)
    {id : String} {document : Document} (hholds : db.documents.Holds id document)
    (hquery : query.holdsIn document) (duration : Duration) :
    db.Finds text ⟨id, document⟩ duration := by
  have hnames : db.Names query id := hcovered.names hkeys hholds hquery
  obtain ⟨outcome, houtcome, hstrategy, hhits⟩ := searchQuery_of_names hreliable h hindexed hnames
  refine ⟨outcome, ?_, hstrategy, (hhits.mem_iff _).mpr ⟨hnames, hholds, .inl hquery⟩⟩
  rw [db.search_eq_searchQuery hparse, houtcome]

/-- A covering index finds a scalar by the equality that asks for it. -/
theorem Covered.finds_equality (hcovered : db.Covered) (hreliable : db.Reliable) (h : db.Legible)
    {id : String} {document : Document} (hholds : db.documents.Holds id document) {path : Path}
    (hpath : path.IsAlphanumeric) {scalar : Json} (hscalar : document.resolve? path = some scalar)
    (hcompound : scalar.isCompound = false) {value : Operand} {text : String}
    (hvalue : value.Derives text.toList) (hrendering : value.text = scalar.rendering)
    (duration : Duration) :
    db.Finds (".".intercalate path ++ ":" ++ text) ⟨id, document⟩ duration := by
  have hne : path ≠ [] := by
    rintro rfl
    cases hscalar
  apply hcovered.finds hreliable h (hpath.parse_equality hne hvalue) rfl
  · exact List.forall_mem_singleton.mpr hpath.not_startsEmpty
  · exact hholds
  · simp [Query.holdsIn, Comparison.holdsIn, hscalar, Operator.holds, hcompound, hrendering]

/-- Where everything is legible and the index covers the documents, each of their scalars is found
by the text with its path and its rendering in quotes, and without quotes if the rendering is a
word. -/
theorem scalar_findable (hreliable : db.Reliable) (hlegible : db.Legible) (hcovered : db.Covered)
    {id : String} {document : Document} (hholds : db.documents.Holds id document) {path : Path}
    (hpath : path.IsAlphanumeric) {scalar : Json} (hscalar : document.resolve? path = some scalar)
    (hcompound : scalar.isCompound = false) (duration : Duration) :
    ('"' ∉ scalar.rendering.toList →
      db.Finds (".".intercalate path ++ ":\"" ++ scalar.rendering ++ "\"") ⟨id, document⟩
        duration) ∧
      (scalar.rendering ≠ "" → (∀ c ∈ scalar.rendering.toList, isWordChar c) →
        db.Finds (".".intercalate path ++ ":" ++ scalar.rendering) ⟨id, document⟩ duration) := by
  constructor
  · intro hquote
    have hvalue : (Operand.quoted scalar.rendering.toList).Derives
        ("\"" ++ scalar.rendering ++ "\"").toList := by
      simpa using Operand.Derives.quoted hquote
    have htext : ".".intercalate path ++ ":\"" ++ scalar.rendering ++ "\"" =
        ".".intercalate path ++ ":" ++ ("\"" ++ scalar.rendering ++ "\"") := by
      have hcolon : ":\"" = ":" ++ "\"" := rfl
      simp only [hcolon, String.append_assoc]
    rw [htext]
    exact hcovered.finds_equality hreliable hlegible hholds hpath hscalar hcompound hvalue
      String.ofList_toList duration
  · intro hne hchars
    have hvalue : (Operand.word scalar.rendering.toList).Derives scalar.rendering.toList :=
      .word (mt String.toList_eq_nil_iff.mp hne) hchars
    exact hcovered.finds_equality hreliable hlegible hholds hpath hscalar hcompound hvalue
      String.ofList_toList duration

end finding

theorem scalar_findable_dotted :
    let db := (empty true).run (additionsOf dottedPairs)
    let hit : SearchHit := ⟨"1", [("a", .object [("b", .number (.integer 1))])]⟩
    db.Finds "a.b:\"1\"" hit ⟨0⟩ ∧ db.Finds "a.b:1" hit ⟨0⟩ := by
  intro db hit
  have hread : ReadBack dottedPairs.reverse :=
    List.forall_mem_cons.mpr ⟨rfl, List.forall_mem_cons.mpr ⟨rfl, nofun⟩⟩
  have hfilled : db.Filled dottedPairs.reverse := filled_run (by decide) ⟨by decide, by decide⟩
  have hlegible : db.Legible := hfilled.legible_iff.mpr fun pair hmem ↦ ⟨_, hread pair hmem⟩
  have hcovered : db.Covered := (hfilled.records.covered_iff hread).mpr hfilled.indexes
  have hholds : db.documents.Holds hit.id hit.body :=
    (hfilled.records.holds_iff_mem hread).mpr (.tail _ (.head _))
  have hletters : ∀ c ∈ "ab".toList, isAlphanumeric c := List.all_eq_true.mp (by decide +kernel)
  have hpath : Path.IsAlphanumeric ["a", "b"] :=
    List.forall_mem_cons.mpr ⟨⟨by decide, fun c hc ↦ hletters c (by simp_all)⟩,
      List.forall_mem_singleton.mpr ⟨by decide, fun c hc ↦ hletters c (by simp_all)⟩⟩
  obtain ⟨hquoted, hword⟩ :=
    scalar_findable hfilled.reliable hlegible hcovered hholds hpath rfl rfl ⟨0⟩
  exact ⟨hquoted (by decide), hword (by decide) (List.all_eq_true.mp (by decide +kernel))⟩

end Database

end PathStore
