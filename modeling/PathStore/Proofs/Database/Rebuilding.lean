import PathStore.Proofs.Index.Relation
import PathStore.Proofs.Search.Additions
import PathStore.Proofs.Storage.Puts

/-!
# A rebuilt index is the one that was kept up

An index that is kept up while documents are added and one that is built from the stored documents
stand for the same relation, so they are the same bytes.  The first sees the documents in the order
of the calls and as they were given; the second sees them in the order of their ids and as they are
read back.  That the documents are read back as they were given rests on their text.  Nothing is
said here of an index that already holds entries, or of stores that fail.
-/

namespace PathStore

namespace Store

def readable (found : List StoredDocument) : List (String × Document) :=
  found.filterMap fun stored ↦ (stored.document.toOption).map (stored.id, ·)

section readable

variable {stored : StoredDocument}

theorem readable_cons_of_error {error : Error} (h : stored.document = .error error)
    (found : List StoredDocument) : readable (stored :: found) = readable found :=
  List.filterMap_cons_none (by rw [h]; rfl)

theorem readable_cons_of_ok {document : Document} (h : stored.document = .ok document)
    (found : List StoredDocument) :
    readable (stored :: found) = (stored.id, document) :: readable found :=
  List.filterMap_cons_some (by rw [h]; rfl)

end readable

theorem mem_readable {found : List StoredDocument} {pair : String × Document} :
    pair ∈ readable found ↔
      ∃ stored ∈ found, stored.id = pair.1 ∧ stored.document = .ok pair.2 := by
  simp only [readable, List.mem_filterMap]
  apply exists_congr
  intro stored
  apply and_congr_right'
  cases stored.document <;> simp [Except.toOption, Prod.ext_iff]

/-- As many documents are indexed as can be read. -/
theorem length_readable (found : List StoredDocument) :
    (readable found).length = found.countP (·.document.isOk) := by
  rw [readable, List.length_filterMap_eq_countP]
  congr 1
  ext stored
  cases stored.document <;> rfl

section represents

variable {known : IdSet} {index : Store} {relation : IndexRelation}

theorem represents_of_empty (known : IdSet) (hreliable : index.Reliable)
    (hentries : index.entries = .empty) : Represents known index ∅ := by
  have hempty := represents_empty known
  refine ⟨?_, hempty.known, hreliable⟩
  rw [hentries]
  exact hempty.entry

/-- A pass over stored documents puts those that can be read into the index, and reports how many
they were and how many it has skipped. -/
theorem Represents.reindexFrom (h : Represents known index relation) (hfits : known.Fits)
    {found : List StoredDocument} (hids : ∀ stored ∈ found, stored.id ∈ known)
    (report : ReindexReport) :
    ∃ after, index.reindexFrom report (found.map .ok) =
        (.ok ⟨report.indexed + (readable found).length,
          report.skipped + found.countP (!·.document.isOk)⟩, after, found.length + 1) ∧
      Represents known after (relation ∪ relationOf (readable found)) := by
  induction found generalizing index relation report with
  | nil => exact ⟨index, rfl, by simpa [readable, relationOf] using h⟩
  | cons stored rest ih =>
    obtain ⟨hid, hrest⟩ := List.forall_mem_cons.mp hids
    rw [List.map_cons, Store.reindexFrom, List.countP_cons, List.length_cons]
    cases hbody : stored.document with
    | error error =>
      have hreadable := readable_cons_of_error hbody rest
      obtain ⟨after, hafter, hrepresents⟩ := ih h hrest ⟨report.indexed, report.skipped + 1⟩
      refine ⟨after, ?_, hreadable ▸ hrepresents⟩
      dsimp only
      rw [hafter, hreadable, Nat.add_right_comm]
      rfl
    | ok document =>
      have hreadable := readable_cons_of_ok hbody rest
      obtain ⟨hadd, hadded⟩ := h.add hfits hid document
      obtain ⟨after, hafter, hrepresents⟩ :=
        ih hadded hrest ⟨report.indexed + 1, report.skipped⟩
      refine ⟨after, ?_, ?_⟩
      · have hadd' : index.addToIndex stored.id document =
            (.ok _, (index.addToIndex stored.id document).2) := Prod.ext hadd rfl
        dsimp only
        rw [hadd']
        dsimp only
        rw [hafter, hreadable, List.length_cons, Nat.add_right_comm]
        rfl
      · rwa [hreadable, relationOf_cons, ← Finset.union_assoc]

end represents

/-- Under distinct ids, what was put last is what was put. -/
theorem mem_of_nodup_lastPut? {pairs : List (String × Document)}
    (hdistinct : (pairs.map Prod.fst).Nodup) {id : String} {document : Document} :
    lastPut? pairs id = some document ↔ (id, document) ∈ pairs := by
  apply Iff.intro mem_of_lastPut?
  intro hmem
  obtain ⟨other, hlast⟩ := exists_lastPut?_iff.mpr (List.mem_map_of_mem hmem)
  have hsame := List.inj_on_of_nodup_map hdistinct (mem_of_lastPut? hlast) hmem rfl
  rw [hlast, (Prod.mk.inj hsame).2]

theorem keeps_of_empty {documents : Store} (hreliable : documents.Reliable)
    (hentries : documents.entries = .empty) : documents.Keeps [] := by
  refine ⟨?_, hreliable⟩
  rw [hentries]
  simp [lastPut?]

/-- A scan shows exactly the documents on the list, if they are read back from their bytes. -/
theorem Keeps.readable_eq {documents : Store} {pairs : List (String × Document)}
    (h : documents.Keeps pairs) (hdistinct : (pairs.map Prod.fst).Nodup) (hread : ReadBack pairs) :
    ∃ found : List StoredDocument, documents.storedDocuments = found.map .ok ∧
      (∀ stored ∈ found, stored.id ∈ pairs.map Prod.fst ∧ stored.document.isOk) ∧
      ∀ pair, pair ∈ readable found ↔ pair ∈ pairs := by
  obtain ⟨found, hfound, -, hmem⟩ := h.storedDocuments_eq
  have hpair (stored : StoredDocument) : stored ∈ found ↔
      ∃ document, (stored.id, document) ∈ pairs ∧ (Json.object document).bytes = stored.body := by
    rw [hmem]
    simp only [mem_of_nodup_lastPut? hdistinct]
  have hdocument {stored : StoredDocument} {document : Document}
      (hmem : (stored.id, document) ∈ pairs) (hbody : (Json.object document).bytes = stored.body) :
      stored.document = .ok document := by
    rw [StoredDocument.document, ← hbody]
    exact hread _ hmem
  refine ⟨found, hfound, ?_, ?_⟩
  · intro stored hstored
    obtain ⟨document, hmem, hbody⟩ := (hpair stored).mp hstored
    refine ⟨List.mem_map_of_mem hmem, ?_⟩
    rw [hdocument hmem hbody]
    rfl
  · intro pair
    rw [mem_readable]
    constructor
    · intro hshown
      obtain ⟨stored, hstored, hid, hother⟩ := hshown
      obtain ⟨document, hmem, hbody⟩ := (hpair stored).mp hstored
      obtain rfl := Except.ok.inj ((hdocument hmem hbody).symm.trans hother)
      rwa [hid] at hmem
    · intro hmem
      have hstored := (hpair ⟨pair.1, (Json.object pair.2).bytes⟩).mpr ⟨pair.2, hmem, rfl⟩
      exact ⟨_, hstored, rfl, hread pair hmem⟩

end Store

namespace Database

/-- The documents added so far are stored as they were put, and the index stands for them. -/
structure KeptUp (known : IdSet) (db : Database) (pairs : List (String × Document)) : Prop where
  documents : db.documents.Keeps pairs
  index : Store.Represents known db.index (relationOf pairs)

section keptUp

variable {known : IdSet} {db : Database} {pairs : List (String × Document)}

theorem Fresh.keptUp (h : db.Fresh) (hreliable : db.Reliable) (known : IdSet) :
    KeptUp known db [] :=
  ⟨Store.keeps_of_empty hreliable.documents h.documents,
    Store.represents_of_empty known hreliable.index h.index⟩

/-- Adding a document keeps both stores up to date, since no call fails. -/
theorem KeptUp.add (h : KeptUp known db pairs) (hfits : known.Fits) {id : String}
    (hid : id ∈ known) (document : Document) :
    KeptUp known (db.add id (.object document)).2 (pairs ++ [(id, document)]) := by
  obtain ⟨hput, hdocuments⟩ := h.documents.put (id, document)
  obtain ⟨hadd, hindex⟩ := h.index.add hfits hid document
  have hbody : (Json.object document).asDocument? = some document := rfl
  rw [← relationOf_singleton, ← relationOf_append] at hindex
  generalize hafter : db.documents.putDocument id document = after at hput hdocuments
  obtain ⟨result, documents⟩ := after
  obtain rfl : result = _ := hput
  generalize hadded : db.index.addToIndex id document = added at hadd hindex
  obtain ⟨result, index⟩ := added
  obtain rfl : result = _ := hadd
  simp only [Database.add, hbody, onDocuments, hafter, indexAdded, onIndex, hadded]
  exact ⟨hdocuments, hindex⟩

/-- Additions keep both stores up to date. -/
theorem KeptUp.run (h : KeptUp known db pairs) (hfits : known.Fits)
    {more : List (String × Document)} (hids : ∀ pair ∈ more, pair.1 ∈ known) :
    KeptUp known (db.run (additionsOf more)) (pairs ++ more) := by
  induction more generalizing db pairs with
  | nil => rwa [List.append_nil]
  | cons pair rest ih =>
    obtain ⟨hid, hrest⟩ := List.forall_mem_cons.mp hids
    rw [← List.singleton_append, ← List.append_assoc]
    exact ih (h.add hfits hid pair.2) hrest

end keptUp

/-- The ids of documents that fit the machine make up a set that does. -/
theorem fits_ids {pairs : List (String × Document)} (h : FitMachine pairs) :
    IdSet.Fits (OrderedSet.ofList (pairs.map Prod.fst)) := by
  have hsub : ∀ id ∈ OrderedSet.ofList (pairs.map Prod.fst), id ∈ pairs.map Prod.fst :=
    fun _ ↦ OrderedSet.mem_ofList.mp
  constructor
  · have hle := OrderedSet.size_le_of_subset hsub
    rw [List.length_map] at hle
    exact Nat.lt_of_le_of_lt hle h.count
  · intro id hid
    obtain ⟨pair, hpair, rfl⟩ := List.mem_map.mp (hsub id hid)
    exact h.length pair hpair

/-- Documents that are read back as they were have been added under distinct ids to an empty
database. From them alone, a rebuild makes the same entries, byte for byte, and reports every
document as indexed. -/
theorem reindex_rebuilds {db : Database} (hfresh : db.Fresh) (hreliable : db.Reliable)
    {pairs : List (String × Document)} (hdistinct : (pairs.map Prod.fst).Nodup)
    (hfit : FitMachine pairs)
    (hbodies : ∀ pair ∈ pairs, Document.IsFaithful pair.2) {other : Database}
    (hother : other.Reliable)
    (hdocuments : other.documents.entries = (db.run (additionsOf pairs)).documents.entries)
    (hindex : other.index.entries = .empty) :
    ∃ after, other.reindex = (.ok ⟨other.documents.size, 0⟩, after) ∧
      after.index.entries = (db.run (additionsOf pairs)).index.entries := by
  have hread : ReadBack pairs := by
    intro pair hmem
    exact (hbodies pair hmem).decodeBody_bytes
  have hfits := fits_ids hfit
  have hids : ∀ pair ∈ pairs, pair.1 ∈ OrderedSet.ofList (pairs.map Prod.fst) := by
    intro pair hmem
    exact OrderedSet.mem_ofList.mpr (List.mem_map_of_mem hmem)
  have hkept := (hfresh.keptUp hreliable _).run hfits hids
  have hkeeps : other.documents.Keeps pairs :=
    ⟨by rw [hdocuments]; exact hkept.documents.entry, hother.documents⟩
  obtain ⟨found, hfound, hall, hpairs⟩ := hkeeps.readable_eq hdistinct hread
  have hempty := Store.represents_of_empty (OrderedSet.ofList (pairs.map Prod.fst)) hother.index
    hindex
  have hknown : ∀ stored ∈ found, stored.id ∈ OrderedSet.ofList (pairs.map Prod.fst) := by
    intro stored hmem
    exact OrderedSet.mem_ofList.mpr (hall stored hmem).1
  obtain ⟨after, hreindex, hrepresents⟩ := hempty.reindexFrom hfits hknown .empty
  -- Both indexes stand for the relation of the documents, whose order does not matter.
  rw [Finset.empty_union, relationOf_congr hpairs] at hrepresents
  have hsize : found.length = other.documents.size := by
    have hnone : ∀ error, .error error ∉ other.documents.storedDocuments := by simp [hfound]
    rw [← Store.length_storedDocuments hnone, hfound, List.length_map]
  have hindexed : (Store.readable found).length = other.documents.size := by
    rw [Store.length_readable, ← hsize, List.countP_eq_length]
    intro stored hmem
    exact (hall stored hmem).2
  have hskipped : found.countP (!·.document.isOk) = 0 := by
    rw [List.countP_eq_zero]
    intro stored hmem
    simp [(hall stored hmem).2]
  rw [← hfound, hindexed, hskipped, ReindexReport.empty, Nat.zero_add] at hreindex
  refine ⟨{ other with
    documents := other.documents.scanned (found.length + 1)
    index := after
    metrics := other.metrics.setDocuments other.documents.size }, ?_,
    hrepresents.entries_eq hkept.index⟩
  rw [reindex, ReindexReport.empty, hreindex]
  rfl

/-- Documents with path-values in common, added in another order than that of their ids. -/
def unorderedPairs : List (String × Document) :=
  [("é", [("x", .object [("y", .bool true)]), ("z", .null)]), ("b", [("z", .null)]),
    ("a", [("n", .number (.integer (2 ^ 64 - 1))), ("z", .string "null")])]

def unindexed : Database :=
  { (empty false).run (additionsOf unorderedPairs) with index := .empty .index }

theorem reindex_rebuilds_unordered :
    ∃ after, unindexed.reindex = (.ok ⟨3, 0⟩, after) ∧
      after.index.entries = ((empty false).run (additionsOf unorderedPairs)).index.entries := by
  have hreliable : (empty false).Reliable := ⟨Store.reliable_empty _, Store.reliable_empty _⟩
  have hdistinct : (unorderedPairs.map Prod.fst).Nodup := by decide
  have hfit : FitMachine unorderedPairs := ⟨by decide, by decide⟩
  have hids :
      ∀ pair ∈ unorderedPairs, pair.1 ∈ OrderedSet.ofList (unorderedPairs.map Prod.fst) := by
    intro pair hmem
    exact OrderedSet.mem_ofList.mpr (List.mem_map_of_mem hmem)
  have hkept := (Fresh.keptUp ⟨rfl, rfl⟩ hreliable _).run (fits_ids hfit) hids
  have hunindexed : unindexed.Reliable := ⟨hkept.documents.reliable, Store.reliable_empty _⟩
  have hbodies : ∀ pair ∈ unorderedPairs, Document.IsFaithful pair.2 := by
    intro pair hmem
    simp only [unorderedPairs, List.mem_cons, List.not_mem_nil, or_false] at hmem
    rcases hmem with rfl | rfl | rfl
    · exact ⟨⟨by decide, ⟨nofun, trivial, trivial⟩, nofun, trivial, trivial⟩,
        ⟨⟨trivial, trivial⟩, trivial, trivial⟩, ⟨⟨rfl, trivial, trivial⟩, trivial, trivial⟩,
        by decide⟩
    · exact ⟨⟨nofun, trivial, trivial⟩, ⟨trivial, trivial⟩, ⟨trivial, trivial⟩, by decide⟩
    · exact ⟨⟨by decide, ⟨by decide, by decide⟩, nofun, trivial, trivial⟩,
        ⟨trivial, trivial, trivial⟩, ⟨trivial, trivial, trivial⟩, by decide⟩
  exact reindex_rebuilds ⟨rfl, rfl⟩ hreliable hdistinct hfit hbodies hunindexed rfl rfl

/-- The database of a document with a marked object inside, whose index has been lost. -/
def unindexedMarked : Database :=
  { (empty false).run (additionsOf [("1", Json.markedDocument)]) with index := .empty .index }

/-- A rebuild passes over such a document, and leaves the index without its entries. -/
theorem not_reindex_rebuilds_marked :
    (Json.object Json.markedDocument).Canonical ∧ (Json.object Json.markedDocument).IntegersOnly ∧
      (Json.object Json.markedDocument).depth ≤ Json.maxDepth ∧
      ∃ after, unindexedMarked.reindex = (.ok ⟨0, 1⟩, after) ∧ after.index.entries ≠
        ((empty false).run (additionsOf [("1", Json.markedDocument)])).index.entries := by
  refine ⟨Json.canonical_markedDocument, Json.integersOnly_markedDocument, by decide, _, rfl, ?_⟩
  intro hentries
  have hsize := congrArg OrderedMap.size hentries
  revert hsize
  decide +kernel

end Database

end PathStore
