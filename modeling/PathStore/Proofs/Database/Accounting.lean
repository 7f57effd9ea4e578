import PathStore.Proofs.Database.Runs

/-!
# Accounting

The metrics of a database are what its calls came to.  Each call is entered once: a document that
has been stored, whether or not it could be indexed; a document that could not; and a search, under
its strategy or as an error.  The number of documents is kept beside these counts, and stays right
although a rebuild sets it anew from what it has seen.  The stores may hold anything, and any of
their calls may fail.
-/

namespace PathStore

namespace Store

/-- A count that succeeds is right. -/
theorem countDocuments_eq_ok {documents : Store} {n : Nat}
    (h : documents.countDocuments.1 = .ok n) : n = documents.size := by
  rw [countDocuments, count] at h
  cases hgather : (gather documents.yields).1 with
  | error fault =>
    dsimp only at h
    rw [hgather] at h
    cases h
  | ok entries =>
    dsimp only at h
    rw [hgather] at h
    obtain rfl := Except.ok.inj h
    have hyields := gather_eq_ok_iff.mp hgather
    have hnone : ∀ fault, .error fault ∉ documents.yields := by simp [hyields]
    rw [← length_yields hnone, hyields, List.length_map]

/-- A rebuild that comes to its end has met no error and counted every document, as indexed or as
skipped. -/
theorem total_of_reindexFrom {index : Store} {report found : ReindexReport}
    {results : List (Except Error StoredDocument)}
    (h : (index.reindexFrom report results).1 = .ok found) :
    (∀ error, .error error ∉ results) ∧ found.total = report.total + results.length := by
  induction results generalizing index report with
  | nil =>
    obtain rfl := Except.ok.inj h
    exact ⟨fun _ ↦ List.not_mem_nil, rfl⟩
  | cons result rest ih =>
    cases result with
    | error error => cases h
    | ok stored =>
      rw [reindexFrom] at h
      simp only [List.mem_cons, reduceCtorEq, false_or, List.length_cons]
      split at h
      · obtain ⟨hnone, htotal⟩ := ih h
        refine ⟨hnone, htotal.trans ?_⟩
        simp only [ReindexReport.total]
        omega
      · split at h
        · cases h
        · obtain ⟨hnone, htotal⟩ := ih h
          refine ⟨hnone, htotal.trans ?_⟩
          simp only [ReindexReport.total]
          omega

end Store

namespace Metrics

/-- The searches counted, under a strategy or as an error. -/
def searched (metrics : Metrics) : Nat :=
  metrics.byIndex.searches + metrics.byFullScan.searches + metrics.searchErrors

/-- Under each strategy, as many searches have been timed as counted. -/
def Timed (metrics : Metrics) : Prop :=
  ∀ strategy, (metrics.ofStrategy strategy).latency.count = (metrics.ofStrategy strategy).searches

/-- What calls have added to the metrics: so many documents stored, so many of them not indexed,
and so many searches. -/
structure Accounts (stored unindexed searched : Nat) (before after : Metrics) : Prop where
  stored : after.added = before.added + stored
  unindexed : after.indexFailures = before.indexFailures + unindexed
  searched : after.searched = before.searched + searched
  timed : before.Timed → after.Timed

section accounts

variable (metrics : Metrics)

theorem Accounts.refl : Accounts 0 0 0 metrics metrics :=
  ⟨rfl, rfl, rfl, id⟩

/-- What has been entered adds up. -/
theorem Accounts.trans {stored unindexed searched stored' unindexed' searched' : Nat}
    {first second third : Metrics} (h : Accounts stored unindexed searched first second)
    (h' : Accounts stored' unindexed' searched' second third) :
    Accounts (stored + stored') (unindexed + unindexed') (searched + searched') first third := by
  refine ⟨?_, ?_, ?_, h'.timed ∘ h.timed⟩
  · rw [h'.stored, h.stored, Nat.add_assoc]
  · rw [h'.unindexed, h.unindexed, Nat.add_assoc]
  · rw [h'.searched, h.searched, Nat.add_assoc]

theorem accounts_recordAdded : Accounts 1 0 0 metrics metrics.recordAdded :=
  ⟨rfl, rfl, rfl, id⟩

theorem accounts_recordIndexFailure : Accounts 0 1 0 metrics metrics.recordIndexFailure :=
  ⟨rfl, rfl, rfl, id⟩

theorem accounts_recordSearchError : Accounts 0 0 1 metrics metrics.recordSearchError :=
  ⟨rfl, rfl, rfl, id⟩

theorem accounts_setDocuments (count : Nat) :
    Accounts 0 0 0 metrics (metrics.setDocuments count) :=
  ⟨rfl, rfl, rfl, id⟩

theorem accounts_recordSearch (strategy : Strategy) (duration : Duration) :
    Accounts 0 0 1 metrics (metrics.recordSearch strategy duration) := by
  refine ⟨by cases strategy <;> rfl, by cases strategy <;> rfl, ?_, ?_⟩
  · cases strategy <;> simp only [searched, recordSearch, StrategyMetrics.record] <;> omega
  · intro h other
    cases strategy <;> cases other
    · exact congrArg (· + 1) (h .index)
    · exact h .fullScan
    · exact h .index
    · exact congrArg (· + 1) (h .fullScan)

end accounts

end Metrics

/-! ## What is to be counted -/

def Operation.isAdd : Operation → Bool
  | .add _ _ => true
  | _ => false

def Operation.isSearch : Operation → Bool
  | .search _ _ _ => true
  | _ => false

def Operation.isReindex : Operation → Bool
  | .reindex => true
  | _ => false

namespace Database

/-- Whether the operation adds a document and succeeds. -/
def stores (db : Database) : Operation → Bool
  | .add id body => (db.add id body).1.isOk
  | _ => false

/-- Whether the operation adds a document and succeeds, but the index cannot take the document. -/
def leavesUnindexed (db : Database) : Operation → Bool
  | .add id body => (db.add id body).1.isOk &&
    body.asDocument?.any fun document ↦ !(db.index.addToIndex id document).1.isOk
  | _ => false

/-- In how many states of a run the property holds of the operation that comes next. -/
def countAlong (p : Database → Operation → Bool) (db : Database) : List Operation → Nat
  | [] => 0
  | operation :: rest => (p db operation).toNat + (db.perform operation).countAlong p rest

section operations

variable (db : Database)

/-- Adding a document fails without effect, or stores it and tries to index it. -/
theorem add_effect (id : String) (body : Json) :
    ∃ result after, db.add id body = (result, after) ∧
      ((∃ error, result = .error error) ∧
          after.documents.entries = db.documents.entries ∧ after.index = db.index ∧
          after.metrics = db.metrics ∨
        result = .ok id ∧ ∃ document, body.asDocument? = some document ∧
          after.documents.entries =
            db.documents.entries.insert (Utf8.encode id) (Json.object document).bytes ∧
          after.index = (db.index.addToIndex id document).2 ∧
          after.metrics = if (db.index.addToIndex id document).1.isOk then db.metrics.recordAdded
            else db.metrics.recordAdded.recordIndexFailure) := by
  unfold add
  cases hbody : body.asDocument? with
  | none => exact ⟨_, db, rfl, .inl ⟨⟨_, rfl⟩, rfl, rfl, rfl⟩⟩
  | some document =>
    dsimp only
    obtain ⟨documents, -, ⟨hput, hentries⟩ | ⟨-, ⟨error, hput⟩, hentries⟩⟩ :=
      db.documents.putDocument_cases id document
    · rw [onDocuments, hput]
      dsimp only
      refine ⟨_, _, rfl, ?_⟩
      right
      refine ⟨rfl, document, rfl, ?_⟩
      rw [indexAdded, onIndex]
      dsimp only
      obtain ⟨_ | _, index⟩ := db.index.addToIndex id document
      · exact ⟨hentries, rfl, rfl⟩
      · exact ⟨hentries, rfl, rfl⟩
    · rw [onDocuments, hput]
      exact ⟨_, _, rfl, .inl ⟨⟨error, rfl⟩, hentries, rfl, rfl⟩⟩

/-- A search is recorded once, whatever comes of it. -/
theorem metrics_search (text : String) (allowIndex : Bool) (duration : Duration) :
    (∃ strategy, (db.search text allowIndex duration).2.metrics =
        db.metrics.recordSearch strategy duration) ∨
      (db.search text allowIndex duration).2.metrics = db.metrics.recordSearchError := by
  unfold search
  cases Query.parse text with
  | error error => exact .inr rfl
  | ok query =>
    obtain ⟨after, hkept, result, hresult, -⟩ := db.searchQuery_cases query allowIndex
    dsimp only
    rw [hresult]
    cases result with
    | error error => exact .inr (congrArg Metrics.recordSearchError hkept.metrics)
    | ok outcome =>
      exact .inl ⟨outcome.strategy, congrArg (Metrics.recordSearch _ duration) hkept.metrics⟩

/-- A rebuild leaves the documents alone, and enters their number if it comes to its end. -/
theorem reindex_effect :
    ∃ result after, db.reindex = (result, after) ∧
      after.documents.entries = db.documents.entries ∧
      (after.metrics = db.metrics ∨ after.metrics = db.metrics.setDocuments db.documents.size) := by
  have htotal {found : ReindexReport}
      (h : (db.index.reindexFrom .empty db.documents.storedDocuments).1 = .ok found) :
      found.total = db.documents.size := by
    obtain ⟨hnone, htotal⟩ := Store.total_of_reindexFrom h
    rw [htotal, Store.length_storedDocuments hnone]
    exact Nat.zero_add _
  unfold reindex
  generalize db.index.reindexFrom .empty db.documents.storedDocuments = found at htotal ⊢
  obtain ⟨_ | report, index, looked⟩ := found
  · exact ⟨_, _, rfl, rfl, .inl rfl⟩
  · exact ⟨_, _, rfl, rfl, .inr (congrArg (Metrics.setDocuments · db.metrics) (htotal rfl))⟩

/-- Every operation is entered into the metrics as what it came to. -/
theorem accounts_perform (operation : Operation) :
    Metrics.Accounts (db.stores operation).toNat (db.leavesUnindexed operation).toNat
      operation.isSearch.toNat db.metrics (db.perform operation).metrics := by
  cases operation with
  | add id body =>
    obtain ⟨result, after, hadd, ⟨⟨error, rfl⟩, -, -, hmetrics⟩ |
      ⟨rfl, document, hbody, -, -, hmetrics⟩⟩ := db.add_effect id body
    · rw [stores, leavesUnindexed, perform, hadd, hmetrics]
      exact .refl _
    · rw [stores, leavesUnindexed, perform, hadd, hmetrics, hbody, Option.any_some]
      cases (db.index.addToIndex id document).1.isOk with
      | true => exact db.metrics.accounts_recordAdded
      | false =>
        exact db.metrics.accounts_recordAdded.trans (Metrics.accounts_recordIndexFailure _)
  | get id => exact .refl _
  | count => exact .refl _
  | search text allowIndex duration =>
    rw [perform]
    rcases db.metrics_search text allowIndex duration with ⟨strategy, hmetrics⟩ | hmetrics
    · exact hmetrics ▸ db.metrics.accounts_recordSearch strategy duration
    · exact hmetrics ▸ db.metrics.accounts_recordSearchError
  | reindex =>
    obtain ⟨result, after, hreindex, -, hmetrics | hmetrics⟩ := db.reindex_effect
    all_goals rw [perform, hreindex]
    · exact hmetrics ▸ .refl _
    · exact hmetrics ▸ db.metrics.accounts_setDocuments _

/-- Only adding a document changes the documents. -/
theorem documents_perform {operation : Operation} (h : operation.isAdd = false) :
    (db.perform operation).documents.entries = db.documents.entries := by
  cases operation with
  | add => cases h
  | get id => exact (unchanged_get db id).entries
  | count => exact (unchanged_count db).entries
  | search text allowIndex duration =>
    obtain ⟨result, after, hsearch, hdocuments, -⟩ := db.search_cases text allowIndex duration
    rw [perform, hsearch]
    exact hdocuments.entries
  | reindex =>
    obtain ⟨result, after, hreindex, hentries, -⟩ := db.reindex_effect
    rw [perform, hreindex]
    exact hentries

/-- Only adding a document and rebuilding change the index. -/
theorem index_perform {operation : Operation} (h : operation.isAdd = false)
    (h' : operation.isReindex = false) :
    (db.perform operation).index.entries = db.index.entries := by
  cases operation with
  | add => cases h
  | get id => rfl
  | count => rfl
  | search text allowIndex duration =>
    obtain ⟨result, after, hsearch, -, hindex, -⟩ := db.search_cases text allowIndex duration
    rw [perform, hsearch]
    exact hindex.entries
  | reindex => cases h'

/-- Where no document is added, the number stays or is entered anew. -/
theorem metrics_perform {operation : Operation} (h : operation.isAdd = false) :
    (db.perform operation).metrics.documents = db.metrics.documents ∨
      (db.perform operation).metrics.documents = gaugeValue db.documents.size := by
  cases operation with
  | add => cases h
  | get id => exact .inl rfl
  | count => exact .inl rfl
  | search text allowIndex duration =>
    rw [perform]
    rcases db.metrics_search text allowIndex duration with ⟨strategy, hmetrics⟩ | hmetrics
    · rw [hmetrics]
      exact .inl (by cases strategy <;> rfl)
    · rw [hmetrics]
      exact .inl rfl
  | reindex =>
    obtain ⟨result, after, hreindex, -, hmetrics | hmetrics⟩ := db.reindex_effect
    all_goals rw [perform, hreindex, hmetrics]
    · exact .inl rfl
    · exact .inr rfl

/-- The metrics show how many documents are stored. -/
def Gauged : Prop :=
  db.metrics.documents = db.documents.size

/-- The ids under which documents are added are distinct, and none of them is in use. -/
structure NewIds (operations : List Operation) : Prop where
  distinct : (addedIds operations).Nodup
  unused : ∀ id ∈ addedIds operations, db.documents.entries.get? (Utf8.encode id) = none

/-- A gauge shows every count below `2 ^ 53` as it is. -/
theorem gaugeValue_of_lt {count : Nat} (h : count < 2 ^ 53) : gaugeValue count = count :=
  if_pos h

variable {db} {operation : Operation} {rest : List Operation}

/-- Adding under a new id makes at most one document more, and enters it if so. -/
theorem NewIds.size_add {id : String} {body : Json} (h : db.NewIds (.add id body :: rest)) :
    (db.add id body).2.documents.size = db.documents.size ∧
        (db.add id body).2.metrics.documents = db.metrics.documents ∨
      (db.add id body).2.documents.size = db.documents.size + 1 ∧
        (db.add id body).2.metrics.documents = gaugeValue (db.metrics.documents + 1) := by
  obtain ⟨result, after, hadd, ⟨-, hentries, -, hmetrics⟩ |
    ⟨-, document, -, hentries, -, hmetrics⟩⟩ := db.add_effect id body
  · rw [hadd, Store.size, Store.size, hentries, hmetrics]
    exact .inl ⟨rfl, rfl⟩
  · rw [hadd, Store.size, Store.size, hentries, hmetrics]
    right
    refine ⟨OrderedMap.size_insert (h.unused id List.mem_cons_self) _, ?_⟩
    split <;> rfl

/-- No operation takes a document away. -/
theorem NewIds.size_le (h : db.NewIds (operation :: rest)) :
    db.documents.size ≤ (db.perform operation).documents.size := by
  cases hadds : operation.isAdd with
  | true =>
    cases operation with
    | add id body =>
      rw [perform]
      rcases h.size_add with ⟨hsame, -⟩ | ⟨hmore, -⟩ <;> omega
    | _ => cases hadds
  | false => rw [Store.size, Store.size, db.documents_perform hadds]

/-- An operation leaves the gauge at the number of documents, as far as its bits reach. -/
theorem NewIds.gauged (h : db.NewIds (operation :: rest)) (hgauged : db.Gauged)
    (hcount : (db.perform operation).documents.size < 2 ^ 53) :
    (db.perform operation).Gauged := by
  have hsize := h.size_le
  cases hadds : operation.isAdd with
  | true =>
    cases operation with
    | add id body =>
      rw [perform] at hcount ⊢
      rcases h.size_add with ⟨hsame, hmetrics⟩ | ⟨hmore, hmetrics⟩
      · rw [Gauged, hsame, hmetrics, hgauged]
      · rw [hmore] at hcount
        rw [Gauged, hmore, hmetrics, hgauged, gaugeValue_of_lt hcount]
    | _ => cases hadds
  | false =>
    rw [Gauged, Store.size, db.documents_perform hadds]
    rcases db.metrics_perform hadds with hmetrics | hmetrics
    · exact hmetrics.trans hgauged
    · exact hmetrics.trans (gaugeValue_of_lt (Nat.lt_of_le_of_lt hsize hcount))

/-- The ids of the operations that are left are still new after the first one. -/
theorem NewIds.perform (h : db.NewIds (operation :: rest)) :
    (db.perform operation).NewIds rest := by
  cases hadds : operation.isAdd with
  | true =>
    cases operation with
    | add id body =>
      obtain ⟨hid, hdistinct⟩ := List.nodup_cons.mp h.distinct
      apply NewIds.mk hdistinct
      intro other hother
      have hnone := h.unused other (List.mem_cons_of_mem _ hother)
      have hne : Utf8.encode id ≠ Utf8.encode other := by
        intro heq
        exact hid (Utf8.encode_injective heq ▸ hother)
      obtain ⟨result, after, hadd, ⟨-, hentries, -⟩ | ⟨-, document, -, hentries, -⟩⟩ :=
        db.add_effect id body
      · rw [Database.perform, hadd, hentries]
        exact hnone
      · rw [Database.perform, hadd, hentries, OrderedMap.get?_insert, if_neg hne]
        exact hnone
    | _ => cases hadds
  | false =>
    have hids : addedIds (operation :: rest) = addedIds rest := by
      cases operation with
      | add => cases hadds
      | _ => rfl
    refine ⟨hids ▸ h.distinct, ?_⟩
    intro id hid
    rw [db.documents_perform hadds]
    exact h.unused id (hids ▸ hid)

end operations

/-! ## Runs -/

/-- What a run enters is the sum of what its operations enter. -/
theorem accounts_run (db : Database) (operations : List Operation) :
    Metrics.Accounts (db.countAlong stores operations) (db.countAlong leavesUnindexed operations)
      (operations.countP (·.isSearch)) db.metrics (db.run operations).metrics := by
  induction operations generalizing db with
  | nil => exact .refl _
  | cons operation rest ih =>
    have hsearches : (operation :: rest).countP (·.isSearch) =
        operation.isSearch.toNat + rest.countP (·.isSearch) := by
      rw [List.countP_cons, Nat.add_comm]
      cases operation.isSearch <;> rfl
    rw [hsearches]
    exact (db.accounts_perform operation).trans (ih _)

theorem NewIds.size_le_run {db : Database} {operations : List Operation}
    (h : db.NewIds operations) : db.documents.size ≤ (db.run operations).documents.size := by
  induction operations generalizing db with
  | nil => exact Nat.le_refl _
  | cons operation rest ih => exact Nat.le_trans h.size_le (ih h.perform)

/-- A run leaves the gauge at the number of documents. -/
theorem NewIds.gauged_run {db : Database} {operations : List Operation} (h : db.NewIds operations)
    (hgauged : db.Gauged) (hcount : (db.run operations).documents.size < 2 ^ 53) :
    (db.run operations).Gauged := by
  induction operations generalizing db with
  | nil => exact hgauged
  | cons operation rest ih =>
    have hstep := h.gauged hgauged (Nat.lt_of_le_of_lt h.perform.size_le_run hcount)
    exact ih h.perform hstep hcount

/-- A database that has been opened shows the number of documents, and has counted nothing. -/
theorem ofStores_eq_ok {verifiesHits : Bool} {documents index : Store} {db : Database}
    (h : (ofStores verifiesHits documents index).1 = .ok db) :
    db.metrics = Metrics.empty.setDocuments db.documents.size ∧
      db.documents.entries = documents.entries ∧ db.index = index := by
  rw [ofStores] at h
  cases hcount : documents.countDocuments.1 with
  | error error =>
    dsimp only at h
    rw [hcount] at h
    cases h
  | ok count =>
    dsimp only at h
    rw [hcount] at h
    obtain rfl := Except.ok.inj h
    have hsize : count = documents.size := Store.countDocuments_eq_ok hcount
    exact ⟨congrArg (Metrics.setDocuments · .empty) hsize, rfl, rfl⟩

/-- However the stores were filled and whichever of their calls fail: from its opening on, the
metrics of a database show the number of its documents, and they have counted the documents added,
those among them that could not be indexed, and the searches.  Only adding a document changes the
documents, and only that and rebuilding change the index. -/
theorem run_accounting {verifiesHits : Bool} {documents index : Store} {db : Database}
    (hopened : (ofStores verifiesHits documents index).1 = .ok db) {operations : List Operation}
    (hids : db.NewIds operations) (hcount : (db.run operations).documents.size < 2 ^ 53) :
    (db.run operations).metrics.documents = (db.run operations).documents.size ∧
      (db.run operations).metrics.added = db.countAlong stores operations ∧
      (db.run operations).metrics.indexFailures = db.countAlong leavesUnindexed operations ∧
      (db.run operations).metrics.searched = operations.countP (·.isSearch) ∧
      (db.run operations).metrics.Timed ∧
      ∀ operation, operation.isAdd = false →
        ((db.run operations).perform operation).documents.entries =
            (db.run operations).documents.entries ∧
          (operation.isReindex = false →
            ((db.run operations).perform operation).index.entries =
              (db.run operations).index.entries) := by
  obtain ⟨hmetrics, -, -⟩ := ofStores_eq_ok hopened
  have haccounts := db.accounts_run operations
  have htimed : db.metrics.Timed := by
    rw [hmetrics]
    intro strategy
    cases strategy <;> rfl
  have hgauged : db.Gauged := by
    have hlt := Nat.lt_of_le_of_lt hids.size_le_run hcount
    rw [Gauged, hmetrics]
    exact gaugeValue_of_lt hlt
  refine ⟨hids.gauged_run hgauged hcount, ?_, ?_, ?_, haccounts.timed htimed, ?_⟩
  · rw [haccounts.stored, hmetrics]
    exact Nat.zero_add _
  · rw [haccounts.unindexed, hmetrics]
    exact Nat.zero_add _
  · rw [haccounts.searched, hmetrics]
    exact Nat.zero_add _
  · intro operation hadds
    exact ⟨documents_perform _ hadds, index_perform _ hadds⟩

/-- One body that cannot be read; the second document to be stored is refused. -/
def wornDocuments : Store :=
  { ((Store.empty .documents).set (Utf8.encode "x") []).2 with sets := ⟨fun made ↦ made = 1, 0⟩ }

def wornIndex : Store :=
  ((Store.empty .index).set (Utf8.encode "k=1") []).2

def worn : Database :=
  ⟨wornDocuments.scanned 2, wornIndex, Metrics.empty.setDocuments 1, true⟩

/-- A document that cannot be indexed, one that is not stored, and one that is both stored and
indexed; a search that succeeds, one without a query and one that meets the bad body. -/
def wornOperations : List Operation :=
  [.add "a" (.object [("k", .number (.integer 1))]), .add "b" (.object []),
    .add "c" (.object [("k", .null)]), .search "k:null" true ⟨5⟩, .search "k" true ⟨0⟩, .reindex,
    .search "" true ⟨7⟩, .get "a", .count]

theorem run_accounting_worn :
    (worn.run wornOperations).metrics.documents = 3 ∧ (worn.run wornOperations).metrics.added = 2 ∧
      (worn.run wornOperations).metrics.indexFailures = 1 ∧
      (worn.run wornOperations).metrics.searched = 3 ∧ (worn.run wornOperations).metrics.Timed := by
  have hopened : (ofStores true wornDocuments wornIndex).1 = .ok worn := rfl
  have hids : worn.NewIds wornOperations := ⟨by decide, by decide⟩
  have hsize : (worn.run wornOperations).documents.size = 3 := by decide +kernel
  obtain ⟨hdocuments, hadded, hfailures, hsearched, htimed, -⟩ :=
    run_accounting hopened hids (by rw [hsize]; decide)
  refine ⟨hdocuments.trans hsize, hadded.trans ?_, hfailures.trans ?_, hsearched, htimed⟩
  · decide +kernel
  · decide +kernel

end Database

end PathStore
