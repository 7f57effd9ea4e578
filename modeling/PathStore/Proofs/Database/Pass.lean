import PathStore.Proofs.Database.Rebuilding
import PathStore.Proofs.Index.Entered
import PathStore.Proofs.Search.Agreement

/-!
# A rebuild over arbitrary contents

A rebuild skips and counts a body that cannot be read, and ends at a key that is no text and at an
entry of the index that cannot be read where a document needs it.  Whether there is such a place
does not depend on the order of the documents, since an entry that can be read stays so while ids
are put into it.  A pass that comes to its end has entered exactly the pairs of the readable
documents, and one that is ended some of them.  No call of a store fails here, and nothing is said
of which error ends a pass.
-/

namespace PathStore

namespace Store

def yielded (results : List (Except Error StoredDocument)) : List StoredDocument :=
  results.filterMap Except.toOption

/-- One of the results is an error, or a readable document has a path-value whose entry cannot be
read. -/
def Obstructs (index : Store) (results : List (Except Error StoredDocument)) : Prop :=
  (∃ error, .error error ∈ results) ∨
    ∃ pair ∈ readable (yielded results), index.HasBadEntry pair.2.pathValues.toList

section obstacles

variable {index before after : Store} {stored : StoredDocument}
  {rest : List (Except Error StoredDocument)} {document : Document}

theorem mem_yielded {results : List (Except Error StoredDocument)} :
    stored ∈ yielded results ↔ .ok stored ∈ results := by
  rw [yielded, List.mem_filterMap]
  constructor
  · intro h
    obtain ⟨_ | found, hmem, hfound⟩ := h
    · cases hfound
    · exact Option.some.inj hfound ▸ hmem
  · intro hmem
    exact ⟨_, hmem, rfl⟩

theorem yielded_cons (stored : StoredDocument) (rest : List (Except Error StoredDocument)) :
    yielded (.ok stored :: rest) = stored :: yielded rest :=
  rfl

/-- A document that cannot be read obstructs nothing. -/
theorem obstructs_cons_of_error {error : Error} (h : stored.document = .error error) :
    index.Obstructs (.ok stored :: rest) ↔ index.Obstructs rest := by
  simp [Obstructs, yielded_cons, readable_cons_of_error h]

/-- A document that can be read obstructs a pass where it needs an entry that cannot be read. -/
theorem obstructs_cons_of_ok (h : stored.document = .ok document) :
    index.Obstructs (.ok stored :: rest) ↔
      index.HasBadEntry document.pathValues.toList ∨ index.Obstructs rest := by
  simp [Obstructs, yielded_cons, readable_cons_of_ok h, or_left_comm]

/-- Ids that are put into entries neither make nor remove obstacles. -/
theorem Entered.obstructs_iff {relation : IndexRelation} (h : Entered relation before after)
    (hfits : before.FitsAlso relation) (results : List (Except Error StoredDocument)) :
    after.Obstructs results ↔ before.Obstructs results := by
  simp only [Obstructs, HasBadEntry, h.idsAt_eq_error_iff hfits]

end obstacles

/-- A pass ends early exactly if there is an obstacle, and has then entered some of the pairs of the
readable documents.  Otherwise it has entered all of them, and counted the documents. -/
theorem Reliable.reindexFrom_entered {index : Store} (hreliable : index.Reliable)
    {results : List (Except Error StoredDocument)}
    (hfits : index.FitsAlso (relationOf (readable (yielded results)))) (report : ReindexReport) :
    ∃ done result after looked, index.reindexFrom report results = (result, after, looked) ∧
      after.Reliable ∧ Entered done index after ∧
      (result = .ok ⟨report.indexed + (readable (yielded results)).length,
            report.skipped + (yielded results).countP (!·.document.isOk)⟩ ∧
          done = relationOf (readable (yielded results)) ∧ ¬ index.Obstructs results ∨
        (∃ error, result = .error error) ∧ done ⊆ relationOf (readable (yielded results)) ∧
          index.Obstructs results) := by
  induction results generalizing index report with
  | nil =>
    have hclear : ¬ index.Obstructs [] := by simp [Obstructs, yielded, readable]
    exact ⟨∅, _, index, 1, rfl, hreliable, entered_empty rfl, .inl ⟨rfl, rfl, hclear⟩⟩
  | cons result rest ih =>
    cases result with
    | error error =>
      have hobstructs : index.Obstructs (.error error :: rest) :=
        .inl ⟨error, List.mem_cons_self⟩
      refine ⟨∅, _, index, 1, rfl, hreliable, entered_empty rfl, ?_⟩
      right
      exact ⟨⟨error, rfl⟩, Finset.empty_subset _, hobstructs⟩
    | ok stored =>
      rw [reindexFrom, yielded_cons, List.countP_cons]
      cases hdocument : stored.document with
      | error error =>
        rw [obstructs_cons_of_error hdocument, readable_cons_of_error hdocument]
        rw [yielded_cons, readable_cons_of_error hdocument] at hfits
        obtain ⟨done, result, after, looked, hrun, hafter, hentered, houtcome⟩ :=
          ih hreliable hfits ⟨report.indexed, report.skipped + 1⟩
        refine ⟨done, result, after, looked + 1, by simp only [hrun], hafter, hentered, ?_⟩
        rcases houtcome with ⟨rfl, hdone, hclear⟩ | hended
        · left
          refine ⟨?_, hdone, hclear⟩
          rw [Nat.add_right_comm]
          rfl
        · exact .inr hended
      | ok document =>
        rw [obstructs_cons_of_ok hdocument, readable_cons_of_ok hdocument, relationOf_cons]
        rw [yielded_cons, readable_cons_of_ok hdocument, relationOf_cons] at hfits
        obtain ⟨first, result, added, hadd, hadded, hfirst, ⟨⟨count, rfl⟩, rfl, hgood⟩ |
          ⟨⟨error, rfl⟩, hsub, hbad⟩⟩ := hreliable.addToIndex_entered stored.id document
        · have hfits' := hfits.mono Finset.subset_union_left
          have hrest : added.FitsAlso (relationOf (readable (yielded rest))) :=
            (hfirst.fitsAlso hfits Finset.subset_union_left).mono Finset.subset_union_right
          obtain ⟨done, result, after, looked, hrun, hafter, hentered, houtcome⟩ :=
            ih hadded hrest ⟨report.indexed + 1, report.skipped⟩
          rw [hfirst.obstructs_iff hfits'] at houtcome
          refine ⟨_, result, after, looked + 1, by simp only [hadd, hrun], hafter,
            hfirst.union hentered hfits', ?_⟩
          rcases houtcome with ⟨rfl, rfl, hclear⟩ | ⟨herror, hsub, hobstructs⟩
          · left
            refine ⟨?_, rfl, not_or_intro hgood hclear⟩
            rw [List.length_cons, Nat.add_right_comm]
            rfl
          · right
            exact ⟨herror, Finset.union_subset_union_right hsub, .inr hobstructs⟩
        · refine ⟨first, .error error, added, 1, by simp only [hadd], hadded, hfirst, ?_⟩
          right
          exact ⟨⟨error, rfl⟩, hsub.trans Finset.subset_union_left, .inl hbad⟩

/-- The readable documents that a scan shows, with their ids. -/
def held (documents : Store) : List (String × Document) :=
  readable (yielded documents.storedDocuments)

/-- A document with the id has a path-value whose entry stands at the key. -/
def Due (documents : Store) (key : Bytes) (id : String) : Prop :=
  ∃ document pathValue, documents.Holds id document ∧ pathValue ∈ document.pathValues ∧
    Utf8.encode pathValue = key

section reliable

variable {documents : Store} (hreliable : documents.Reliable)

include hreliable

theorem length_held_le : documents.held.length ≤ documents.size := by
  have hlength : documents.storedDocuments.length = documents.size := by
    rw [storedDocuments_of_reliable hreliable, List.length_map]
    rfl
  rw [← hlength]
  exact (List.length_filterMap_le ..).trans (List.length_filterMap_le ..)

theorem ok_mem_storedDocuments_iff {stored : StoredDocument} :
    .ok stored ∈ documents.storedDocuments ↔
      documents.entries.get? (Utf8.encode stored.id) = some stored.body := by
  apply Iff.intro get?_of_mem_storedDocuments
  intro hbody
  rw [storedDocuments_of_reliable hreliable]
  exact List.mem_map.mpr ⟨_, OrderedMap.mem_entries_iff.mpr hbody,
    StoredDocument.ofEntry_eq_ok_iff.mpr rfl⟩

theorem error_mem_storedDocuments_iff :
    (∃ error, .error error ∈ documents.storedDocuments) ↔
      ∃ entry ∈ documents.entries.entries, ∃ fault, Utf8.decode entry.1 = .error fault := by
  simp only [storedDocuments_of_reliable hreliable, List.mem_map,
    ← StoredDocument.ofEntry_eq_error_iff]
  grind

/-- The documents that a scan shows are those that can be got by their ids. -/
theorem mem_held_iff {id : String} {document : Document} :
    (id, document) ∈ documents.held ↔ documents.Holds id document := by
  rw [held, mem_readable]
  simp only [mem_yielded, ok_mem_storedDocuments_iff hreliable]
  constructor
  · intro h
    obtain ⟨stored, hstored, rfl, hdocument⟩ := h
    exact ⟨stored.body, hstored, hdocument⟩
  · intro h
    obtain ⟨body, hbody, hdocument⟩ := h
    exact ⟨⟨id, body⟩, hbody, rfl, hdocument⟩

theorem mem_idsFor_held {key : Bytes} {id : String} :
    id ∈ idsFor key (relationOf documents.held) ↔ documents.Due key id := by
  simp only [mem_idsFor, mem_relationOf, mem_held_iff hreliable, Due]
  grind

/-- What obstructs a pass can be told without a scan, and without an order of the documents. -/
theorem obstructs_storedDocuments_iff {index : Store} :
    index.Obstructs documents.storedDocuments ↔
      (∃ entry ∈ documents.entries.entries, ∃ fault, Utf8.decode entry.1 = .error fault) ∨
        ∃ id document, documents.Holds id document ∧
          index.HasBadEntry document.pathValues.toList := by
  refine or_congr (error_mem_storedDocuments_iff hreliable) ?_
  rw [Prod.exists]
  exact exists₂_congr fun id document ↦ and_congr_left' (mem_held_iff hreliable)

/-- If all keys are texts, each entry is among the documents. -/
theorem countP_yielded (hnone : ∀ error, .error error ∉ documents.storedDocuments)
    (p : Except Error Document → Bool) :
    (yielded documents.storedDocuments).countP (p ·.document) =
      documents.entries.entries.countP (p <| decodeBody ·.2) := by
  rw [storedDocuments_of_reliable hreliable] at hnone ⊢
  rw [yielded, List.countP_filterMap, List.countP_map]
  apply List.countP_congr
  intro entry hentry
  cases hstored : StoredDocument.ofEntry entry with
  | error error => exact absurd (List.mem_map.mpr ⟨entry, hentry, hstored⟩) (hnone error)
  | ok stored =>
    rw [Function.comp_apply, hstored, StoredDocument.ofEntry_eq_ok_iff.mp hstored]
    rfl

end reliable

end Store

/-! ## Rebuilding -/

namespace Database

/-- A key of the documents is no text, or a readable document has a path-value whose entry cannot be
read. -/
def Obstructed (db : Database) : Prop :=
  (∃ entry ∈ db.documents.entries.entries, ∃ fault, Utf8.decode entry.1 = .error fault) ∨
    ∃ id document, db.documents.Holds id document ∧
      db.index.HasBadEntry document.pathValues.toList

/-- What a rebuild that comes to its end has done.  Every document is counted as indexed or as
skipped, the sets of the index have got the ids that are due, and nothing else has changed.  Another
rebuild reports the same and does not change a byte of the index. -/
structure Rebuilt (before : Database) (report : ReindexReport) (after : Database) : Prop where
  indexed : report.indexed =
    before.documents.entries.entries.countP fun entry ↦ (decodeBody entry.2).isOk
  skipped : report.skipped =
    before.documents.entries.entries.countP fun entry ↦ !(decodeBody entry.2).isOk
  documents : after.documents.entries = before.documents.entries
  entry : ∀ key ids, Store.idsOfEntry (before.index.entries.get? key) = .ok ids →
    ∃ others, Store.idsOfEntry (after.index.entries.get? key) = .ok others ∧
      ∀ id, id ∈ others ↔ id ∈ ids ∨ before.documents.Due key id
  unreadable : ∀ key fault, Store.idsOfEntry (before.index.entries.get? key) = .error fault →
    after.index.entries.get? key = before.index.entries.get? key
  again : ∃ second, after.reindex = (.ok report, second) ∧
    second.index.entries = after.index.entries

/-- What a rebuild that is ended early has done.  The sets of the index have got some of the ids
that are due, and nothing else has changed, nor has anything been counted. -/
structure Halted (before after : Database) : Prop where
  documents : after.documents.entries = before.documents.entries
  metrics : after.metrics = before.metrics
  entry : ∀ key ids, Store.idsOfEntry (before.index.entries.get? key) = .ok ids →
    ∃ others, Store.idsOfEntry (after.index.entries.get? key) = .ok others ∧
      (∀ id ∈ ids, id ∈ others) ∧ ∀ id ∈ others, id ∈ ids ∨ before.documents.Due key id
  unreadable : ∀ key fault, Store.idsOfEntry (before.index.entries.get? key) = .error fault →
    after.index.entries.get? key = before.index.entries.get? key

section rebuilding

variable {db : Database}

theorem FitsMachine.accommodates (h : db.FitsMachine) (hreliable : db.documents.Reliable) :
    db.index.Accommodates db.documents.held where
  size pathValue ids hids :=
    Nat.lt_of_le_of_lt (Nat.add_le_add_left (Store.length_held_le hreliable) _)
      (h.size pathValue ids hids)
  length := by
    intro pair hpair
    obtain ⟨body, hbody, -⟩ := (Store.mem_held_iff hreliable).mp hpair
    exact h.length _ (OrderedMap.mem_entries_iff.mpr hbody)

/-- Entering pairs neither puts an obstacle in the way nor takes one out of it. -/
theorem obstructed_iff {after : Database} {done : IndexRelation}
    (hdocuments : after.documents.entries = db.documents.entries)
    (hentered : Store.Entered done db.index after.index) (hfits : db.index.FitsAlso done) :
    after.Obstructed ↔ db.Obstructed := by
  simp only [Obstructed, Store.Holds, Store.HasBadEntry, hdocuments,
    hentered.idsAt_eq_error_iff hfits]

/-- A rebuild is a pass over the documents. -/
theorem reindex_entered (hreliable : db.Reliable)
    (hfits : db.index.FitsAlso (relationOf db.documents.held)) :
    ∃ done result after, db.reindex = (result, after) ∧
      after.documents.entries = db.documents.entries ∧ after.Reliable ∧
      Store.Entered done db.index after.index ∧
      (result = .ok ⟨db.documents.held.length,
            (Store.yielded db.documents.storedDocuments).countP (!·.document.isOk)⟩ ∧
          done = relationOf db.documents.held ∧ ¬ db.Obstructed ∨
        (∃ error, result = .error error) ∧ after.metrics = db.metrics ∧
          done ⊆ relationOf db.documents.held ∧ db.Obstructed) := by
  obtain ⟨done, result, index, looked, hrun, hindex, hentered, houtcome⟩ :=
    hreliable.index.reindexFrom_entered hfits .empty
  rw [Store.obstructs_storedDocuments_iff hreliable.documents] at houtcome
  have hdocuments := (db.documents.unchanged_scanned looked).reliable hreliable.documents
  unfold reindex
  rw [hrun]
  rcases houtcome with ⟨rfl, hdone, hclear⟩ | ⟨⟨error, rfl⟩, hsub, hobstructed⟩
  · refine ⟨done, _, _, rfl, rfl, ⟨hdocuments, hindex⟩, hentered, ?_⟩
    left
    refine ⟨?_, hdone, hclear⟩
    simp only [ReindexReport.empty, Nat.zero_add]
    rfl
  · refine ⟨done, _, _, rfl, rfl, ⟨hdocuments, hindex⟩, hentered, ?_⟩
    right
    exact ⟨⟨error, rfl⟩, rfl, hsub, hobstructed⟩

/-- A rebuild after all pairs have been entered leaves the bytes as they are. -/
theorem reindex_again {after : Database} (hreliable : db.Reliable) (hafter : after.Reliable)
    (hfits : db.index.FitsAlso (relationOf db.documents.held))
    (hdocuments : after.documents.entries = db.documents.entries)
    (hentered : Store.Entered (relationOf db.documents.held) db.index after.index)
    (hclear : ¬ db.Obstructed) :
    ∃ second, after.reindex = (.ok ⟨db.documents.held.length,
        (Store.yielded db.documents.storedDocuments).countP (!·.document.isOk)⟩, second) ∧
      second.index.entries = after.index.entries := by
  have hstored : after.documents.storedDocuments = db.documents.storedDocuments := by
    rw [Store.storedDocuments_of_reliable hafter.documents, hdocuments,
      Store.storedDocuments_of_reliable hreliable.documents]
  have hheld : after.documents.held = db.documents.held := by rw [Store.held, hstored, Store.held]
  obtain ⟨done, result, second, hrun, -, -, hsecond, houtcome⟩ :=
    reindex_entered hafter (hheld ▸ hentered.fitsAlso hfits (Finset.Subset.refl _))
  rw [hheld, hstored] at houtcome
  rcases houtcome with ⟨rfl, rfl, -⟩ | ⟨-, -, -, hobstructed⟩
  · refine ⟨second, hrun, ?_⟩
    have htwice := hentered.union hsecond hfits
    rw [Finset.union_self] at htwice
    exact htwice.entries_eq hentered
  · exact absurd ((obstructed_iff hdocuments hentered hfits).mp hobstructed) hclear

/-- A rebuild of a database with any contents fails exactly if there is an obstacle. -/
theorem reindex_passes (hreliable : db.Reliable) (hmachine : db.FitsMachine) :
    ((∃ error, db.reindex.1 = .error error) ↔ db.Obstructed) ∧
      (∀ report, db.reindex.1 = .ok report → db.Rebuilt report db.reindex.2) ∧
      ∀ error, db.reindex.1 = .error error → db.Halted db.reindex.2 := by
  have hfits := (hmachine.accommodates hreliable.documents).fitsAlso
  obtain ⟨done, result, after, hrun, hdocuments, hafter, hentered, houtcome⟩ :=
    reindex_entered hreliable hfits
  rw [hrun]
  rcases houtcome with ⟨rfl, rfl, hclear⟩ | ⟨⟨error, rfl⟩, hmetrics, hsub, hobstructed⟩
  · refine ⟨iff_of_false nofun hclear, ?_, nofun⟩
    intro report hreport
    obtain rfl := Except.ok.inj hreport
    have hnone : ∀ error, .error error ∉ db.documents.storedDocuments := by
      intro error herror
      apply hclear
      left
      exact (Store.error_mem_storedDocuments_iff hreliable.documents).mp ⟨error, herror⟩
    constructor
    case indexed =>
      calc
        db.documents.held.length =
            (Store.yielded db.documents.storedDocuments).countP (·.document.isOk) :=
          Store.length_readable _
        _ = db.documents.entries.entries.countP fun entry ↦ (decodeBody entry.2).isOk :=
          Store.countP_yielded hreliable.documents hnone Except.isOk
    case skipped => exact Store.countP_yielded hreliable.documents hnone (!·.isOk)
    case documents => exact hdocuments
    case entry =>
      intro key ids hids
      refine ⟨_, hentered.idsOfEntry_eq hfits hids, ?_⟩
      intro id
      rw [IdSet.mem_insertAll, Store.mem_idsFor_held hreliable.documents]
    case unreadable =>
      intro key fault hfault
      exact hentered.get?_of_error hfault
    case again => exact reindex_again hreliable hafter hfits hdocuments hentered hclear
  · refine ⟨iff_of_true ⟨error, rfl⟩ hobstructed, nofun, ?_⟩
    intro _ _
    refine ⟨hdocuments, hmetrics, ?_, fun key fault hfault ↦ hentered.get?_of_error hfault⟩
    intro key ids hids
    refine ⟨_, hentered.idsOfEntry_eq (hfits.mono hsub) hids, ?_, ?_⟩
    · intro id hid
      exact IdSet.mem_insertAll.mpr (.inl hid)
    · intro id hid
      rcases IdSet.mem_insertAll.mp hid with hold | hdone
      · exact .inl hold
      · right
        obtain ⟨pathValue, hkey, hmem⟩ := Store.mem_idsFor.mp hdone
        rw [← Store.mem_idsFor_held hreliable.documents]
        exact Store.mem_idsFor.mpr ⟨pathValue, hkey, hsub hmem⟩

end rebuilding

/-- A database with a body that cannot be read, a set with an id that has no document and a byte
behind it, and an entry that is no set of ids. -/
def ragged : Database :=
  let body := (Json.object [("k", .number (.integer 1))]).bytes
  let documents := ((Store.empty .documents).set (Utf8.encode "a") body).2
  let ids := IdSet.encode (.ofList ["c"]) ++ [0]
  let index := ((Store.empty .index).set (Utf8.encode "k=1") ids).2
  { empty false with
    documents := (documents.set (Utf8.encode "b") [0]).2
    index := (index.set (Utf8.encode "l=null") [1]).2 }

def jammed : Database :=
  { ragged with
    documents := (ragged.documents.set (Utf8.encode "d") (Json.object [("l", .null)]).bytes).2 }

theorem size_le_of_idsAt_ragged {pathValue : String} {ids : IdSet}
    (h : ragged.index.idsAt pathValue = .ok ids) : ids.size ≤ 1 := by
  unfold Store.idsAt at h
  split at h
  · rename_i bytes hbytes
    have hmem := OrderedMap.mem_entries_iff.mpr hbytes
    have hentries : ragged.index.entries.entries =
        [(Utf8.encode "k=1", IdSet.encode (.ofList ["c"]) ++ [0]),
          (Utf8.encode "l=null", [1])] := by rfl
    rw [hentries, List.mem_pair] at hmem
    rcases hmem with hentry | hentry
    · obtain rfl := (Prod.mk.inj hentry).2
      have hids : IdSet.decode (IdSet.encode (.ofList ["c"]) ++ [0]) = .ok (.ofList ["c"]) := by rfl
      obtain rfl := Except.ok.inj (hids.symm.trans h)
      decide
    · obtain rfl := (Prod.mk.inj hentry).2
      cases h
  · obtain rfl := Except.ok.inj h
    decide

theorem reindex_passes_ragged :
    (ragged.reindex.1 = .ok ⟨1, 1⟩ ∧ ragged.Rebuilt ⟨1, 1⟩ ragged.reindex.2) ∧
      jammed.Obstructed ∧ jammed.Halted jammed.reindex.2 := by
  have hragged : ragged.Reliable :=
    ⟨((Store.reliable_empty _).set _ _).set _ _, ((Store.reliable_empty _).set _ _).set _ _⟩
  have hjammed : jammed.Reliable := ⟨hragged.documents.set _ _, hragged.index⟩
  have hsize {documents : Nat} (hdocuments : documents ≤ 3) (pathValue : String) (ids : IdSet)
      (h : ragged.index.idsAt pathValue = .ok ids) : ids.size + documents < 2 ^ 64 :=
    Nat.lt_of_le_of_lt (Nat.add_le_add (size_le_of_idsAt_ragged h) hdocuments) (by decide)
  have hresult : ragged.reindex.1 = .ok ⟨1, 1⟩ := by rfl
  have hfault : jammed.reindex.1 = .error (.idSet .numberCutOff) := by rfl
  obtain ⟨-, hrebuilt, -⟩ := reindex_passes hragged ⟨by decide, hsize (by decide)⟩
  obtain ⟨hobstructed, -, hhalted⟩ := reindex_passes hjammed ⟨by decide, hsize (by decide)⟩
  exact ⟨⟨hresult, hrebuilt _ hresult⟩, hobstructed.mp ⟨_, hfault⟩, hhalted _ hfault⟩

end Database

end PathStore
