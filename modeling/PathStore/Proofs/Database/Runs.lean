import Mathlib.Data.List.Induction
import PathStore.Proofs.Database.Records
import PathStore.Proofs.Json.Readable
import PathStore.Proofs.Search.Reference

/-!
# The index along a run

Any sequence of operations is performed on a database whose stores fail at whichever calls they
like.  The documents are recorded one by one: a document is stored before it is indexed, so the
index never gets ahead of the documents, and it falls behind only where a call of the index store
has failed.  A rebuild that succeeds catches up.  All this is so of documents that are read back as
they were added; an object inside them that begins with the mark of another text is excluded, since
the index and the stored bytes disagree about it.
-/

namespace PathStore

inductive Operation where
  | add (id : String) (body : Json)
  | get (id : String)
  | count
  | search (text : String) (allowIndex : Bool) (duration : Duration)
  | reindex

def addedIds (operations : List Operation) : List String :=
  operations.filterMap fun
    | .add id _ => some id
    | _ => none

/-- Ids are distinct and numbers fit into 64 bits, and the documents are such as are read back from
their bytes: canonical, without double-precision numbers, not nested too deeply and without a mark
inside. -/
structure Admissible (operations : List Operation) : Prop where
  distinct : (addedIds operations).Nodup
  count : (addedIds operations).length < 2 ^ 64
  length : ∀ id ∈ addedIds operations, (Utf8.encode id).length < 2 ^ 64
  bodies : ∀ id body, .add id body ∈ operations →
    body.Canonical ∧ body.IntegersOnly ∧ body.depth ≤ Json.maxDepth
  unmarked : ∀ id document, .add id (.object document) ∈ operations →
    Json.UnmarkedMembers document

section addedIds

variable {operations : List Operation}

theorem mem_addedIds {id : String} :
    id ∈ addedIds operations ↔ ∃ body, .add id body ∈ operations := by
  simp only [addedIds, List.mem_filterMap]
  constructor
  · intro h
    rcases h with ⟨operation, hmem, hid⟩
    cases operation with
    | add other body =>
      obtain rfl := Option.some.inj hid
      exact ⟨body, hmem⟩
    | _ => cases hid
  · intro h
    rcases h with ⟨body, hmem⟩
    exact ⟨_, hmem, rfl⟩

theorem addedIds_append (operations more : List Operation) :
    addedIds (operations ++ more) = addedIds operations ++ addedIds more :=
  List.filterMap_append

theorem Admissible.of_append {more : List Operation} (h : Admissible (operations ++ more)) :
    Admissible operations := by
  have hids := addedIds_append operations more
  constructor
  case distinct => exact (List.nodup_append.mp (hids ▸ h.distinct)).1
  case count =>
    have hcount := h.count
    rw [hids, List.length_append] at hcount
    omega
  case length =>
    intro id hid
    apply h.length
    rw [hids]
    exact List.mem_append_left _ hid
  case bodies =>
    intro id body hmem
    exact h.bodies id body (List.mem_append_left _ hmem)
  case unmarked =>
    intro id document hmem
    exact h.unmarked id document (List.mem_append_left _ hmem)

end addedIds

namespace Database

/-- The database after an operation, whatever its result. -/
def perform (db : Database) : Operation → Database
  | .add id body => (db.add id body).2
  | .get id => (db.get id).2
  | .count => db.count.2
  | .search text allowIndex duration => (db.search text allowIndex duration).2
  | .reindex => db.reindex.2

def run (db : Database) (operations : List Operation) : Database :=
  operations.foldl perform db

structure Fresh (db : Database) : Prop where
  documents : db.documents.entries = .empty
  index : db.index.entries = .empty

/-- The list holds documents that the operations have added; they are all indexed if no call of the
index has failed. -/
structure Traced (db : Database) (operations : List Operation)
    (stored : List (String × Document)) : Prop where
  records : db.Records stored
  added : ∀ pair ∈ stored, .add pair.1 (.object pair.2) ∈ operations
  count : stored.length ≤ (addedIds operations).length
  indexed : db.metrics.indexFailures = 0 ∨ db.index.Unfailed → db.Indexes stored

section runs

variable {db : Database} {operations : List Operation} {stored : List (String × Document)}

/-- Documents from admissible operations fit the machine. -/
theorem Traced.fitMachine (h : db.Traced operations stored) (hadmissible : Admissible operations) :
    FitMachine stored := by
  refine ⟨Nat.lt_of_le_of_lt h.count hadmissible.count, ?_⟩
  intro pair hmem
  exact hadmissible.length _ (mem_addedIds.mpr ⟨_, h.added pair hmem⟩)

/-- Documents from admissible operations are read back. -/
theorem Traced.readBack (h : db.Traced operations stored) (hadmissible : Admissible operations) :
    ReadBack stored := by
  intro pair hmem
  have hadded := h.added pair hmem
  obtain ⟨hcanonical, hintegers, hdepth⟩ := hadmissible.bodies _ _ hadded
  have hunmarked := hadmissible.unmarked _ _ hadded
  exact Document.IsFaithful.decodeBody_bytes ⟨hcanonical, hintegers, hunmarked, hdepth⟩

theorem Fresh.traced (h : db.Fresh) : db.Traced [] [] := by
  have hrecords : db.Records [] := by
    constructor
    case documents =>
      intro key body
      rw [h.documents]
      simp
    case index =>
      intro pathValue
      refine ⟨.empty, ?_, ?_⟩
      · rw [Store.idsAt, h.index]
        rfl
      · intro id hid
        exact absurd hid (OrderedSet.not_mem_empty id)
  exact ⟨hrecords, List.forall_mem_nil _, Nat.le_refl _, fun _ ↦ List.forall_mem_nil _⟩

/-- What has not failed after an operation had not failed before it. -/
theorem Traced.indexed_before (h : db.Traced operations stored) {after : Database}
    (hfollows : db.index.Follows after.index)
    (hfailures : after.metrics.indexFailures = db.metrics.indexFailures)
    (hspared : after.metrics.indexFailures = 0 ∨ after.index.Unfailed) : db.Indexes stored := by
  apply h.indexed
  rcases hspared with hzero | hunfailed
  · exact .inl (hfailures.symm.trans hzero)
  · exact .inr (hfollows.unfailed hunfailed)

/-- An operation that stores no document and takes no id out keeps the trace. -/
theorem Traced.step (h : db.Traced operations stored) {after : Database} (operation : Operation)
    (hrecords : after.Records stored) (hgrows : db.index.Grows after.index)
    (hfollows : db.index.Follows after.index)
    (hfailures : after.metrics.indexFailures = db.metrics.indexFailures) :
    after.Traced (operations ++ [operation]) stored := by
  refine ⟨hrecords, ?_, ?_, ?_⟩
  · intro pair hmem
    exact List.mem_append_left _ (h.added pair hmem)
  · have hcount := h.count
    rw [addedIds_append, List.length_append]
    omega
  · intro hindexed pair hmem
    have hbefore := h.indexed_before hfollows hfailures hindexed
    exact hgrows.names (hbefore pair hmem)

/-- An operation that only reads does not matter to what is recorded. -/
theorem Traced.read (h : db.Traced operations stored) {after : Database} (operation : Operation)
    (hdocuments : db.documents.Unchanged after.documents) (hindex : db.index.Unchanged after.index)
    (hfailures : after.metrics.indexFailures = db.metrics.indexFailures) :
    after.Traced (operations ++ [operation]) stored := by
  have hextends := hindex.extends h.records.index
  exact h.step _ (h.records.of_entries hdocuments.entries hextends.within) hextends.grows
    hextends.follows hfailures

theorem unchanged_get (db : Database) (id : String) :
    db.documents.Unchanged (db.get id).2.documents := by
  obtain ⟨documents, hdocuments, hget | ⟨-, fault, hget⟩⟩ := db.documents.getDocument_cases id
  all_goals
    rw [get, onDocuments, hget]
    exact hdocuments

theorem unchanged_count (db : Database) : db.documents.Unchanged db.count.2.documents :=
  db.documents.unchanged_scanned _

/-- Adding a document under a new id extends the trace, unless it is not stored. -/
theorem Traced.add (h : db.Traced operations stored) {id : String} {body : Json}
    (hadmissible : Admissible (operations ++ [.add id body])) :
    ∃ more, (db.perform (.add id body)).Traced (operations ++ [.add id body]) more := by
  have hids : addedIds (operations ++ [.add id body]) = addedIds operations ++ [id] :=
    addedIds_append _ _
  have hlength : (addedIds operations).length + 1 < 2 ^ 64 := by
    have hcount := hadmissible.count
    rwa [hids, List.length_append] at hcount
  have hnew : ∀ pair ∈ stored, pair.1 ≠ id := by
    rintro pair hmem rfl
    have hdistinct := hids ▸ hadmissible.distinct
    have hold := mem_addedIds.mpr ⟨_, h.added pair hmem⟩
    exact (List.nodup_append.mp hdistinct).2.2 _ hold _ (List.mem_singleton_self _) rfl
  have hfit (document : Document) : FitMachine ((id, document) :: stored) := by
    have hold := h.fitMachine hadmissible.of_append
    have hcount := h.count
    have hid : (Utf8.encode id).length < 2 ^ 64 :=
      hadmissible.length id (hids ▸ List.mem_append_right _ (List.mem_singleton_self _))
    refine ⟨?_, List.forall_mem_cons.mpr ⟨hid, hold.length⟩⟩
    rw [List.length_cons]
    omega
  obtain ⟨result, after, hadd, -, hindex, -, houtcome⟩ :=
    h.records.add_cases id body hnew fun document _ ↦ hfit document
  rw [perform, hadd]
  have hadded (document : Document) (hbody : body.asDocument? = some document) :
      ∀ pair ∈ (id, document) :: stored,
        .add pair.1 (.object pair.2) ∈ operations ++ [.add id body] := by
    obtain rfl := Json.asDocument?_eq_some_iff.mp hbody
    refine List.forall_mem_cons.mpr ⟨?_, ?_⟩
    · exact List.mem_append_right _ (List.mem_singleton_self _)
    · intro pair hmem
      exact List.mem_append_left _ (h.added pair hmem)
  have hcount (document : Document) :
      ((id, document) :: stored).length ≤ (addedIds (operations ++ [.add id body])).length := by
    rw [hids, List.length_append]
    exact Nat.succ_le_succ h.count
  cases houtcome with
  | refused hrecords heq hfailures =>
    exact ⟨stored, h.step _ hrecords (heq ▸ .refl _) hindex hfailures⟩
  | indexed hbody hrecords hgrows hfailures hnames =>
    refine ⟨_, hrecords, hadded _ hbody, hcount _, ?_⟩
    intro hindexed
    have hbefore := h.indexed_before hindex hfailures hindexed
    refine List.forall_mem_cons.mpr ⟨hnames, ?_⟩
    intro pair hmem
    exact hgrows.names (hbefore pair hmem)
  | unindexed hbody hrecords hgrows hfailures hspared =>
    refine ⟨_, hrecords, hadded _ hbody, hcount _, ?_⟩
    intro hindexed
    rcases hindexed with hzero | hunfailed
    · exact absurd (hfailures.symm.trans hzero) (Nat.succ_ne_zero _)
    · exact absurd (.inr hunfailed) hspared

/-- Rebuilding keeps the trace, and indexes all documents if it succeeds. -/
theorem Traced.reindex (h : db.Traced operations stored) (hadmissible : Admissible operations) :
    ∃ result after, db.reindex = (result, after) ∧
      after.Traced (operations ++ [.reindex]) stored ∧
      ((∃ report, result = .ok report) → after.Indexes stored) := by
  have hread := h.readBack hadmissible
  obtain ⟨result, after, heq, hdocuments, hextends, -, hfailures, houtcome⟩ :=
    reindex_cases h.records.index (h.fitMachine hadmissible).bounded
      fun pathValue id hid ↦ (h.records.mem_idsWith_iff hread).mp hid
  have hrecords := h.records.of_entries hdocuments.entries hextends.within
  refine ⟨result, after, heq, h.step _ hrecords hextends.grows hextends.follows hfailures, ?_⟩
  intro hok
  rcases hok with ⟨report, rfl⟩
  rcases houtcome with ⟨-, hcovered⟩ | ⟨⟨error, hcontra⟩, -⟩
  · exact (hrecords.covered_iff hread).mp hcovered
  · cases hcontra

/-- In every reachable state the stored documents are among those that were added, and the index
names no others. -/
theorem run_traced (hfresh : db.Fresh) (hadmissible : Admissible operations) :
    ∃ stored, (db.run operations).Traced operations stored := by
  induction operations using List.reverseRecOn with
  | nil => exact ⟨[], hfresh.traced⟩
  | append_singleton operations operation ih =>
    obtain ⟨stored, h⟩ := ih hadmissible.of_append
    have hrun : db.run (operations ++ [operation]) = (db.run operations).perform operation :=
      List.foldl_append ..
    rw [hrun]
    cases operation with
    | add id body => exact h.add hadmissible
    | get id => exact ⟨stored, h.read _ (unchanged_get _ id) (.refl _) rfl⟩
    | count => exact ⟨stored, h.read _ (unchanged_count _) (.refl _) rfl⟩
    | search text allowIndex duration =>
      obtain ⟨result, after, heq, hdocuments, hindex, hfailures⟩ :=
        (db.run operations).search_cases text allowIndex duration
      rw [perform, heq]
      exact ⟨stored, h.read _ hdocuments hindex hfailures⟩
    | reindex =>
      obtain ⟨result, after, heq, htraced, -⟩ := h.reindex hadmissible.of_append
      rw [perform, heq]
      exact ⟨stored, htraced⟩

/-- After any run the entries name only documents with their path-value.  They name all of them if
no call of the index store has failed, if no document has been left unindexed, and right after every
rebuild that succeeds. -/
theorem run_index_invariant (hfresh : db.Fresh) (hadmissible : Admissible operations) :
    (db.run operations).Sound ∧
      ((db.run operations).index.Unfailed → (db.run operations).Exact) ∧
      ((db.run operations).metrics.indexFailures = 0 → (db.run operations).Exact) ∧
      ∀ report after, (db.run operations).reindex = (.ok report, after) → after.Exact := by
  obtain ⟨stored, h⟩ := run_traced hfresh hadmissible
  have hread := h.readBack hadmissible
  have hexact (hindexed : (db.run operations).metrics.indexFailures = 0 ∨
      (db.run operations).index.Unfailed) : (db.run operations).Exact :=
    h.records.exact hread (h.indexed hindexed)
  refine ⟨h.records.sound hread, ?_, ?_, ?_⟩
  · intro hunfailed
    exact hexact (.inr hunfailed)
  · intro hzero
    exact hexact (.inl hzero)
  · intro report after hreindex
    obtain ⟨result, after', heq, htraced, hindexes⟩ := h.reindex hadmissible
    obtain ⟨rfl, rfl⟩ := Prod.mk.inj (hreindex.symm.trans heq)
    exact htraced.records.exact hread (hindexes ⟨report, rfl⟩)

end runs

/-- A database whose index takes one entry and then fails. -/
def faulty : Database :=
  { empty true with index := { Store.empty .index with sets := .failingAfter 1 } }

theorem run_index_invariant_faulty :
    let operations : List Operation := [.add "a" (.object [("k", .number (.integer 1))]),
      .add "b" (.object [("k", .null), ("l", .array [])]), .search "k:1" true ⟨0⟩, .reindex,
      .get "a"]
    (faulty.run operations).Sound ∧
      ((faulty.run operations).index.Unfailed → (faulty.run operations).Exact) ∧
      ((faulty.run operations).metrics.indexFailures = 0 → (faulty.run operations).Exact) ∧
      ∀ report after, (faulty.run operations).reindex = (.ok report, after) → after.Exact := by
  refine run_index_invariant ⟨rfl, rfl⟩ ⟨by decide, by decide, by decide, ?_, ?_⟩
  · intro id body hmem
    simp only [List.mem_cons, Operation.add.injEq, reduceCtorEq, List.not_mem_nil, or_false] at hmem
    rcases hmem with ⟨rfl, rfl⟩ | ⟨rfl, rfl⟩
    · refine ⟨⟨nofun, ⟨by decide, by decide⟩, trivial⟩, ⟨trivial, trivial⟩, by decide⟩
    · refine ⟨⟨?_, trivial, nofun, trivial, trivial⟩, ⟨trivial, trivial, trivial⟩, by decide⟩
      decide
  · intro id document hmem
    simp only [List.mem_cons, Operation.add.injEq, reduceCtorEq, List.not_mem_nil, or_false,
      Json.object.injEq] at hmem
    rcases hmem with ⟨rfl, rfl⟩ | ⟨rfl, rfl⟩
    · exact ⟨trivial, trivial⟩
    · exact ⟨trivial, trivial, trivial⟩

/-- The operations add a document with a marked object inside twice. -/
def markedAdditions : List Operation :=
  [.add "1" (.object Json.markedDocument), .add "2" (.object Json.markedDocument)]

def stalling : Database :=
  { empty true with index := { Store.empty .index with sets := .failingAfter 2 } }

/-- An index that names a document that cannot be read is not sound. -/
theorem not_sound_of_marked {db : Database}
    (hbody : db.documents.entries.get? (Utf8.encode "1") =
      some (Json.object Json.markedDocument).bytes)
    (hids : db.index.idsAt "a.x=1" = .ok (.ofList ["1"])) : ¬ db.Sound := by
  intro hsound
  obtain ⟨ids, hfound, hall⟩ := hsound "a.x=1"
  obtain rfl := Except.ok.inj (hids.symm.trans hfound)
  obtain ⟨document, ⟨body, hget, hread⟩, -⟩ :=
    hall "1" (OrderedSet.mem_ofList.mpr (List.mem_singleton_self _))
  obtain rfl := Option.some.inj (hbody.symm.trans hget)
  exact Json.decodeBody_markedDocument hread

/-- A document with a marked object inside is indexed and cannot be read, and a rebuild passes over
it: two documents of the same bytes are stored, and after a rebuild that succeeds the index names
only one of them. -/
theorem not_sound_marked :
    (∀ id body, .add id body ∈ markedAdditions →
        body.Canonical ∧ body.IntegersOnly ∧ body.depth ≤ Json.maxDepth) ∧
      ¬ (stalling.run markedAdditions).Sound ∧
      ∃ after, (stalling.run markedAdditions).reindex = (.ok ⟨0, 2⟩, after) ∧ ¬ after.Sound ∧
        after.documents.entries.get? (Utf8.encode "1") =
          after.documents.entries.get? (Utf8.encode "2") ∧
        after.index.idsAt "a.x=1" = .ok (.ofList ["1"]) := by
  refine ⟨?_, not_sound_of_marked (by decide +kernel) rfl, _, rfl, ?_, by decide +kernel, rfl⟩
  · intro id body hmem
    simp only [markedAdditions, List.mem_cons, Operation.add.injEq, List.not_mem_nil,
      or_false] at hmem
    obtain rfl : body = .object Json.markedDocument := by tauto
    exact ⟨Json.canonical_markedDocument, Json.integersOnly_markedDocument, by decide⟩
  · exact not_sound_of_marked (by decide +kernel) rfl

end Database

end PathStore
