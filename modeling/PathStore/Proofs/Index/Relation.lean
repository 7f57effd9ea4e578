import Mathlib.Data.List.Induction
import PathStore.Proofs.Index.Entries

/-!
# The index as a relation

An index stands for a relation between path-values and ids.  Putting a document in adds its pairs
and taking it out deletes them, and every question about the index is one about the relation.  The
bytes are those of the relation alone; to be read back, the number of ids that are known and their
lengths have to fit into 64 bits.
-/

namespace PathStore

/-- Which ids stand at which path-values. -/
abbrev IndexRelation := Finset (String × String)

def IsImage (relation : IndexRelation) (pathValue : String) (ids : IdSet) : Prop :=
  ∀ id, id ∈ ids ↔ (pathValue, id) ∈ relation

/-- Every path-value has a set of ids. -/
theorem exists_isImage (relation : IndexRelation) (pathValue : String) :
    ∃ ids, IsImage relation pathValue ids :=
  ⟨OrderedSet.ofList ((relation.filter (·.1 = pathValue)).image Prod.snd).toList, by simp [IsImage]⟩

/-- A path-value has one set of ids. -/
theorem IsImage.unique {relation : IndexRelation} {pathValue : String} {ids others : IdSet}
    (h : IsImage relation pathValue ids) (h' : IsImage relation pathValue others) : ids = others :=
  OrderedSet.ext fun id ↦ (h id).trans (h' id).symm

def pairsOf (id : String) (pathValues : List String) : IndexRelation :=
  (pathValues.map (·, id)).toFinset

theorem mem_pairsOf {id : String} {pathValues : List String} {pair : String × String} :
    pair ∈ pairsOf id pathValues ↔ pair.1 ∈ pathValues ∧ pair.2 = id := by
  rcases pair with ⟨pathValue, other⟩
  simp [pairsOf, eq_comm]

theorem pairsOf_cons (id pathValue : String) (rest : List String) :
    pairsOf id (pathValue :: rest) = insert (pathValue, id) (pairsOf id rest) :=
  List.toFinset_cons

/-- Which ids stand at which path-values in the documents on the list. -/
def relationOf (pairs : List (String × Document)) : IndexRelation :=
  (pairs.flatMap fun pair ↦ pair.2.pathValues.toList.map (·, pair.1)).toFinset

theorem mem_relationOf {pairs : List (String × Document)} {pathValue id : String} :
    (pathValue, id) ∈ relationOf pairs ↔
      ∃ document, (id, document) ∈ pairs ∧ pathValue ∈ document.pathValues := by
  simp only [relationOf, List.mem_toFinset, List.mem_flatMap, List.mem_map, Prod.mk.injEq]
  constructor
  · intro h
    obtain ⟨pair, hpair, _, hmem, rfl, rfl⟩ := h
    exact ⟨pair.2, hpair, hmem⟩
  · intro h
    obtain ⟨document, hpair, hmem⟩ := h
    exact ⟨_, hpair, pathValue, hmem, rfl, rfl⟩

/-- The order of the documents does not matter. -/
theorem relationOf_congr {pairs others : List (String × Document)}
    (h : ∀ pair, pair ∈ pairs ↔ pair ∈ others) : relationOf pairs = relationOf others := by
  ext pair
  rw [mem_relationOf, mem_relationOf]
  simp only [h]

theorem relationOf_append (pairs others : List (String × Document)) :
    relationOf (pairs ++ others) = relationOf pairs ∪ relationOf others := by
  rw [relationOf, List.flatMap_append, List.toFinset_append]
  rfl

theorem relationOf_singleton (id : String) (document : Document) :
    relationOf [(id, document)] = pairsOf id document.pathValues.toList := by
  simp [relationOf, pairsOf]

theorem relationOf_cons (id : String) (document : Document) (rest : List (String × Document)) :
    relationOf ((id, document) :: rest) =
      pairsOf id document.pathValues.toList ∪ relationOf rest := by
  rw [← relationOf_singleton, ← relationOf_append]
  rfl

/-- Whether an id is put into entries or taken out of them. -/
inductive IndexEdit where
  | merge
  | retract
deriving Repr, DecidableEq

namespace IndexEdit

/-- What an edit does to the set in an entry. -/
def onIds (id : String) : IndexEdit → IdSet → IdSet
  | merge => (·.insert id)
  | retract => (·.erase id)

def onRelation (relation pairs : IndexRelation) : IndexEdit → IndexRelation
  | merge => relation ∪ pairs
  | retract => relation \ pairs

/-- The pairs among these that an edit changes. -/
def changed (relation pairs : IndexRelation) : IndexEdit → IndexRelation
  | merge => pairs \ relation
  | retract => pairs ∩ relation

variable {relation : IndexRelation} {id pathValue : String} {ids : IdSet}

/-- Editing the set in an entry edits the relation at its pair. -/
theorem isImage_onIds (edit : IndexEdit) (h : IsImage relation pathValue ids) :
    IsImage (edit.onRelation relation {(pathValue, id)}) pathValue (edit.onIds id ids) := by
  intro other
  cases edit with
  | merge => simp [onIds, onRelation, h other]
  | retract => simp [onIds, onRelation, h other]

/-- Editing one pair leaves the sets of other path-values alone. -/
theorem isImage_onRelation_iff (edit : IndexEdit) {other : String} (hne : other ≠ pathValue) :
    IsImage (edit.onRelation relation {(pathValue, id)}) other ids ↔
      IsImage relation other ids := by
  cases edit <;> simp [IsImage, onRelation, hne]

/-- An edit changes a set just when it changes the relation. -/
theorem onIds_ne_iff (edit : IndexEdit) (h : IsImage relation pathValue ids) :
    edit.onIds id ids ≠ ids ↔ (pathValue, id) ∈ edit.changed relation {(pathValue, id)} := by
  cases edit with
  | merge => simp [onIds, changed, ← h id, OrderedSet.insert_eq_self_iff]
  | retract => simp [onIds, changed, ← h id, OrderedSet.erase_eq_self_iff]

theorem onRelation_cons (edit : IndexEdit) (rest : List String) :
    edit.onRelation (edit.onRelation relation {(pathValue, id)}) (pairsOf id rest) =
      edit.onRelation relation (pairsOf id (pathValue :: rest)) := by
  rw [pairsOf_cons]
  ext pair
  cases edit with
  | merge => simp [onRelation, or_assoc, or_comm]
  | retract => simp [onRelation, and_assoc]

/-- The changes at several path-values are counted one by one. -/
theorem card_changed_cons (edit : IndexEdit) {rest : List String} (hnot : pathValue ∉ rest) :
    (edit.changed relation (pairsOf id (pathValue :: rest))).card =
      (edit.changed (edit.onRelation relation {(pathValue, id)}) (pairsOf id rest)).card +
        if (pathValue, id) ∈ edit.changed relation {(pathValue, id)} then 1 else 0 := by
  have hpair : (pathValue, id) ∉ pairsOf id rest := by
    intro h
    exact hnot (mem_pairsOf.mp h).1
  -- The first pair is not among the others, so their changes are the same after it.
  have hrest : edit.changed (edit.onRelation relation {(pathValue, id)}) (pairsOf id rest) =
      edit.changed relation (pairsOf id rest) := by
    ext pair
    have hne (h : pair ∈ pairsOf id rest) : pair ≠ (pathValue, id) := by
      intro heq
      exact hpair (heq ▸ h)
    cases edit <;> simp +contextual [changed, onRelation, hne]
  rw [hrest, pairsOf_cons]
  by_cases hmem : (pathValue, id) ∈ relation <;> cases edit <;>
    simp [changed, hmem, hpair, Finset.insert_sdiff_of_mem, Finset.insert_sdiff_of_notMem,
      Finset.insert_inter_of_mem, Finset.insert_inter_of_notMem]

theorem known_onRelation (edit : IndexEdit) {pairs : IndexRelation} {known : IdSet}
    (hrelation : ∀ pair ∈ relation, pair.2 ∈ known) (hpairs : ∀ pair ∈ pairs, pair.2 ∈ known) :
    ∀ pair ∈ edit.onRelation relation pairs, pair.2 ∈ known := by
  intro pair hpair
  cases edit with
  | merge => exact (Finset.mem_union.mp hpair).elim (hrelation pair) (hpairs pair)
  | retract => exact hrelation pair (Finset.mem_sdiff.mp hpair).1

end IndexEdit

namespace Store

/-! ## What an index stands for -/

/-- The entries are the images of the path-values, the empty ones left out, and no call fails.  All
ids are known. -/
structure Represents (known : IdSet) (index : Store) (relation : IndexRelation) : Prop where
  entry : ∀ key value, index.entries.get? key = some value ↔
    ∃ pathValue ids, IsImage relation pathValue ids ∧ Utf8.encode pathValue = key ∧
      stored? ids = some value
  known : ∀ pair ∈ relation, pair.2 ∈ known
  reliable : index.Reliable

section represents

variable {known : IdSet} {index : Store} {relation : IndexRelation} {pathValue id : String}
  {ids : IdSet}

theorem represents_empty (known : IdSet) : Represents known (empty .index) ∅ where
  entry key value := by
    simp only [empty, OrderedMap.get?_empty, reduceCtorEq, false_iff, not_exists]
    rintro pathValue ids ⟨himage, -, hstored⟩
    obtain rfl : ids = .empty := himage.unique fun id ↦ by simp
    cases hstored
  known := by simp
  reliable := reliable_empty .index

/-- The entry of a path-value is the stored form of its image. -/
theorem Represents.get?_encode (h : Represents known index relation)
    (himage : IsImage relation pathValue ids) :
    index.entries.get? (Utf8.encode pathValue) = stored? ids := by
  apply Option.ext
  intro value
  rw [h.entry]
  constructor
  · intro hvalue
    obtain ⟨other, others, hothers, hkey, hvalue⟩ := hvalue
    obtain rfl := Utf8.encode_injective hkey
    rwa [himage.unique hothers]
  · intro hvalue
    exact ⟨pathValue, ids, himage, rfl, hvalue⟩

/-- The set of a path-value can be read, and is its image. -/
theorem Represents.idsAt_eq (h : Represents known index relation) (hfits : known.Fits)
    (himage : IsImage relation pathValue ids) : index.idsAt pathValue = .ok ids := by
  have hids : ids.Fits := hfits.subset fun id hid ↦ h.known _ ((himage id).mp hid)
  rw [idsAt, h.get?_encode himage, stored?]
  cases hempty : ids.isEmpty with
  | true => rw [OrderedSet.isEmpty_iff.mp hempty]; rfl
  | false => exact IdSet.decode_encode hids

/-- An edit at one path-value edits the relation at one pair, and tells whether it had to. -/
theorem Represents.edit_one (h : Represents known index relation) (hfits : known.Fits)
    (hid : id ∈ known) (edit : IndexEdit) (pathValue : String) :
    ∃ after, index.updateEntry (edit.onIds id) pathValue =
        (.ok ((pathValue, id) ∈ edit.changed relation {(pathValue, id)}), after) ∧
      Represents known after (edit.onRelation relation {(pathValue, id)}) := by
  obtain ⟨ids, himage⟩ := exists_isImage relation pathValue
  have hids := h.idsAt_eq hfits himage
  have himage' : IsImage (edit.onRelation relation {(pathValue, id)}) pathValue
      (edit.onIds id ids) := edit.isImage_onIds himage
  obtain ⟨after, hfollows, ⟨ids', hids', hupdate, hentries⟩ | ⟨-, -, hcause⟩⟩ :=
    index.updateEntry_cases (edit.onIds id) pathValue
  · obtain rfl := Except.ok.inj (hids.symm.trans hids')
    -- An entry that is not written has the bytes that would be.
    have hget (key : Bytes) : after.entries.get? key =
        if Utf8.encode pathValue = key then stored? (edit.onIds id ids)
        else index.entries.get? key := by
      rw [hentries]
      by_cases hkey : Utf8.encode pathValue = key
      · subst hkey
        by_cases hsame : edit.onIds id ids = ids
        · simp [hsame, h.get?_encode himage]
        · simp [hsame]
      · simp [hkey]
    refine ⟨after, by simpa only [edit.onIds_ne_iff himage] using hupdate, ?_, ?_,
      hfollows.reliable h.reliable⟩
    · intro key value
      rw [hget]
      split
      · rename_i hkey
        subst hkey
        constructor
        · intro hvalue
          exact ⟨pathValue, _, himage', rfl, hvalue⟩
        · intro hvalue
          obtain ⟨other, others, hothers, hkey, hvalue⟩ := hvalue
          obtain rfl := Utf8.encode_injective hkey
          rwa [himage'.unique hothers]
      · rename_i hkey
        rw [h.entry]
        apply exists_congr
        intro other
        by_cases hother : other = pathValue
        · simp [hother, hkey]
        · simp only [edit.isImage_onRelation_iff hother]
    · exact edit.known_onRelation h.known (by simpa using hid)
  · obtain ⟨fault, hfault⟩ := hcause (.inl h.reliable)
    cases hids.symm.trans hfault

/-- An edit at several path-values edits the relation at all of them, and counts its changes. -/
theorem Represents.edit_all (h : Represents known index relation) (hfits : known.Fits)
    (hid : id ∈ known) (edit : IndexEdit) {pathValues : List String}
    (hnodup : pathValues.Nodup) :
    ∃ after, index.updateEntries (updateEntry (edit.onIds id)) pathValues =
        (.ok (edit.changed relation (pairsOf id pathValues)).card, after) ∧
      Represents known after (edit.onRelation relation (pairsOf id pathValues)) := by
  induction pathValues generalizing index relation with
  | nil =>
    refine ⟨index, ?_, ?_⟩
    · cases edit <;> simp [updateEntries, pairsOf, IndexEdit.changed]
    · cases edit <;> simpa [pairsOf, IndexEdit.onRelation]
  | cons pathValue rest ih =>
    obtain ⟨hnot, hrest⟩ := List.nodup_cons.mp hnodup
    obtain ⟨first, hfirst, hrepresents⟩ := h.edit_one hfits hid edit pathValue
    obtain ⟨after, hafter, hrepresents⟩ := ih hrepresents hrest
    refine ⟨after, ?_, ?_⟩
    · rw [updateEntries, hfirst]
      simp [hafter, Except.map, edit.card_changed_cons hnot]
    · rwa [edit.onRelation_cons] at hrepresents

end represents

end Store

inductive IndexOperation where
  | merge (pathValue id : String)
  | add (id : String) (document : Document)
  | remove (id : String) (document : Document)

namespace IndexOperation

def id : IndexOperation → String
  | merge _ id | add id _ | remove id _ => id

def pairs : IndexOperation → IndexRelation
  | merge pathValue id => {(pathValue, id)}
  | add id document | remove id document => pairsOf id document.pathValues.toList

def onRelation (relation : IndexRelation) : IndexOperation → IndexRelation
  | remove id document => relation \ (remove id document).pairs
  | operation => relation ∪ operation.pairs

def onIndex (index : Store) : IndexOperation → Store
  | merge pathValue id => (Store.mergeId id index pathValue).2
  | add id document => (index.addToIndex id document).2
  | remove id document => (index.removeFromIndex id document).2

def relation (operations : List IndexOperation) : IndexRelation :=
  operations.foldl onRelation ∅

def index (operations : List IndexOperation) : Store :=
  operations.foldl onIndex (.empty .index)

end IndexOperation

namespace Store

section operations

variable {known : IdSet} {index : Store} {relation : IndexRelation} {id : String}

theorem Represents.merge (h : Represents known index relation) (hfits : known.Fits)
    (hid : id ∈ known) (pathValue : String) :
    (mergeId id index pathValue).1 = .ok ((pathValue, id) ∉ relation) ∧
      Represents known (mergeId id index pathValue).2 (relation ∪ {(pathValue, id)}) := by
  obtain ⟨after, hmerge, hafter⟩ := h.edit_one hfits hid .merge pathValue
  replace hmerge : mergeId id index pathValue = _ := hmerge
  rw [hmerge]
  exact ⟨by simp [IndexEdit.changed], hafter⟩

/-- Putting a document in adds its pairs and counts the new ones. -/
theorem Represents.add (h : Represents known index relation) (hfits : known.Fits)
    (hid : id ∈ known) (document : Document) :
    (index.addToIndex id document).1 =
        .ok (pairsOf id document.pathValues.toList \ relation).card ∧
      Represents known (index.addToIndex id document).2
        (relation ∪ pairsOf id document.pathValues.toList) := by
  obtain ⟨after, hadd, hafter⟩ := h.edit_all hfits hid .merge document.pathValues.nodup
  replace hadd : index.addToIndex id document = _ := hadd
  rw [hadd]
  exact ⟨rfl, hafter⟩

/-- Taking a document out deletes its pairs and counts those that were there. -/
theorem Represents.remove (h : Represents known index relation) (hfits : known.Fits)
    (hid : id ∈ known) (document : Document) :
    (index.removeFromIndex id document).1 =
        .ok (pairsOf id document.pathValues.toList ∩ relation).card ∧
      Represents known (index.removeFromIndex id document).2
        (relation \ pairsOf id document.pathValues.toList) := by
  obtain ⟨after, hremove, hafter⟩ := h.edit_all hfits hid .retract document.pathValues.nodup
  replace hremove : index.removeFromIndex id document = _ := hremove
  rw [hremove]
  exact ⟨rfl, hafter⟩

/-- An operation does to the relation what it does to the index. -/
theorem Represents.onIndex (h : Represents known index relation) (hfits : known.Fits)
    {operation : IndexOperation} (hid : operation.id ∈ known) :
    Represents known (operation.onIndex index) (operation.onRelation relation) := by
  cases operation with
  | merge pathValue id => exact (h.merge hfits hid pathValue).2
  | add id document => exact (h.add hfits hid document).2
  | remove id document => exact (h.remove hfits hid document).2

/-- After any run the index stands for the relation that the run describes. -/
theorem represents_run {operations : List IndexOperation} (hfits : known.Fits)
    (hids : ∀ operation ∈ operations, operation.id ∈ known) :
    Represents known (IndexOperation.index operations) (IndexOperation.relation operations) := by
  induction operations using List.reverseRecOn with
  | nil => exact represents_empty known
  | append_singleton operations operation ih =>
    rw [IndexOperation.index, IndexOperation.relation, List.foldl_concat, List.foldl_concat]
    have hearlier : ∀ earlier ∈ operations, earlier.id ∈ known := by
      intro earlier hmem
      exact hids earlier (List.mem_append_left _ hmem)
    exact (ih hearlier).onIndex hfits (hids operation (by simp))

theorem Represents.lookup_eq (h : Represents known index relation) (hfits : known.Fits)
    (pathValue : String) :
    ∃ ids, (index.lookup pathValue).1 = .ok ids ∧ IsImage relation pathValue ids := by
  obtain ⟨ids, himage⟩ := exists_isImage relation pathValue
  refine ⟨ids, ?_, himage⟩
  obtain ⟨after, -, hlookup | ⟨hspared, -⟩⟩ := index.lookup_cases pathValue
  · rw [hlookup, h.idsAt_eq hfits himage]
    rfl
  · exact absurd (.inl h.reliable) hspared

/-- There are as many entries as path-values in the relation. -/
theorem Represents.countEntries_eq (h : Represents known index relation) :
    index.countEntries.1 = .ok (relation.image Prod.fst).card := by
  have hsize : index.size = (relation.image Prod.fst).card := by
    apply OrderedMap.size_eq_card fun _ _ ↦ Utf8.encode_injective
    intro key
    simp only [h.entry, stored?_eq_some_iff]
    constructor
    · intro hvalue
      obtain ⟨-, pathValue, ids, himage, hkey, hnonempty, -⟩ := hvalue
      obtain ⟨id, hid⟩ := List.isEmpty_eq_false_iff_exists_mem.mp hnonempty
      exact ⟨pathValue, Finset.mem_image.mpr ⟨_, (himage id).mp hid, rfl⟩, hkey⟩
    · intro hpathValue
      obtain ⟨_, hmem, hkey⟩ := hpathValue
      obtain ⟨⟨pathValue, id⟩, hpair, rfl⟩ := Finset.mem_image.mp hmem
      obtain ⟨ids, himage⟩ := exists_isImage relation pathValue
      have hnonempty := List.isEmpty_eq_false_iff_exists_mem.mpr ⟨id, (himage id).mpr hpair⟩
      exact ⟨ids.encode, pathValue, ids, himage, hkey, hnonempty, rfl⟩
  rw [countEntries, ← hsize]
  exact congrArg (Except.mapError Error.store) (count_of_reliable h.reliable)

/-- The relation determines the entries. -/
theorem Represents.entries_eq {other : Store} (h : Represents known index relation)
    (h' : Represents known other relation) : index.entries = other.entries := by
  apply OrderedMap.ext
  intro key value
  rw [h.entry, h'.entry]

/-- Taking out what has just been put in leaves the bytes that were there before. -/
theorem Represents.add_remove (h : Represents known index relation) (hfits : known.Fits)
    (hid : id ∈ known) {document : Document}
    (hnew : ∀ pathValue ∈ document.pathValues, (pathValue, id) ∉ relation) :
    ((index.addToIndex id document).2.removeFromIndex id document).2.entries = index.entries := by
  have hremoved := ((h.add hfits hid document).2.remove hfits hid document).2
  have hdisjoint : Disjoint relation (pairsOf id document.pathValues.toList) := by
    apply Finset.disjoint_right.mpr
    intro pair hpair
    obtain ⟨hmem, rfl⟩ := mem_pairsOf.mp hpair
    exact hnew pair.1 hmem
  rw [Finset.union_sdiff_cancel_right hdisjoint] at hremoved
  exact hremoved.entries_eq h

/-- The index holds this relation.  Each path-value with ids has one entry, the stored form of its
ids in the order of their bytes, and there are no others; every question is answered from the
relation; and every change is reported as what it does to the relation.  A document that is taken
out after it has been put in has left no trace, unless its id already stood somewhere. -/
structure Realizes (known : IdSet) (index : Store) (relation : IndexRelation) : Prop where
  entry : ∀ key value, index.entries.get? key = some value ↔
    ∃ pathValue ids, IsImage relation pathValue ids ∧ ids.isEmpty = false ∧
      Utf8.encode pathValue = key ∧ (ids.toList.map Utf8.encode).Pairwise (· < ·) ∧
      ids.encode = value
  lookup : ∀ pathValue, ∃ ids, (index.lookup pathValue).1 = .ok ids ∧
    IsImage relation pathValue ids
  count : index.countEntries.1 = .ok (relation.image Prod.fst).card
  merge : ∀ id ∈ known, ∀ pathValue,
    (mergeId id index pathValue).1 = .ok ((pathValue, id) ∉ relation)
  add : ∀ id ∈ known, ∀ document, (index.addToIndex id document).1 =
    .ok (pairsOf id document.pathValues.toList \ relation).card
  remove : ∀ id ∈ known, ∀ document, (index.removeFromIndex id document).1 =
    .ok (pairsOf id document.pathValues.toList ∩ relation).card
  addRemove : ∀ id ∈ known, ∀ document,
    (∀ pathValue ∈ document.pathValues, (pathValue, id) ∉ relation) →
      ((index.addToIndex id document).2.removeFromIndex id document).2.entries = index.entries

/-- After any run on an empty index, its bytes and all its answers are those of the relation. -/
theorem index_realizes_relation {operations : List IndexOperation} (hfits : known.Fits)
    (hids : ∀ operation ∈ operations, operation.id ∈ known) :
    Realizes known (IndexOperation.index operations) (IndexOperation.relation operations) := by
  have h := represents_run hfits hids
  constructor
  case entry =>
    intro key value
    simp only [h.entry, stored?_eq_some_iff, IdSet.pairwise_encode, true_and]
    apply exists₂_congr
    intro pathValue ids
    exact and_congr_right' and_left_comm
  case lookup => exact h.lookup_eq hfits
  case count => exact h.countEntries_eq
  case merge =>
    intro id hid pathValue
    exact (h.merge hfits hid pathValue).1
  case add =>
    intro id hid document
    exact (h.add hfits hid document).1
  case remove =>
    intro id hid document
    exact (h.remove hfits hid document).1
  case addRemove =>
    intro id hid document hnew
    exact h.add_remove hfits hid hnew

/-- Two documents that share a path-value, taken out again in part, and one pair on its own. -/
def sharedOperations : List IndexOperation :=
  [.add "a" [("x", .object [("y", .bool true)]), ("z", .null)], .add "é" [("z", .null)],
    .merge "z=null" "a", .remove "a" [("z", .null), ("w", .null)], .merge "" "é"]

theorem index_realizes_relation_shared :
    Realizes (OrderedSet.ofList ["a", "é"]) (IndexOperation.index sharedOperations)
      (IndexOperation.relation sharedOperations) := by
  apply index_realizes_relation
  · refine ⟨by decide, ?_⟩
    intro id hid
    rcases List.mem_pair.mp (OrderedSet.mem_ofList.mp hid) with rfl | rfl <;> decide
  · simp [sharedOperations, IndexOperation.id]

end operations

end Store

end PathStore
