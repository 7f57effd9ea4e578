import PathStore.Proofs.Index.Interrupted

/-!
# Pairs that have been entered

Putting an id into an entry adds a pair to what the index stands for, and adds it to the bytes in a
way that shows neither when nor how often it was put there: a set has one stored form.  So a
relation says what a run of such steps has done to an index with arbitrary contents, and two runs
that have entered the same pairs have left the same bytes.  Entries that are no sets of ids take no
part in this.
-/

namespace PathStore

def IdSet.insertAll (ids : IdSet) (more : List String) : IdSet :=
  more.foldl OrderedSet.insert ids

namespace IdSet

variable {ids : IdSet} {more others : List String}

@[simp]
theorem mem_insertAll {id : String} : id ∈ ids.insertAll more ↔ id ∈ ids ∨ id ∈ more :=
  OrderedSet.mem_foldl_insert

/-- Neither the order of the ids nor their repetitions matter. -/
theorem insertAll_congr (h : ∀ id, id ∈ more ↔ id ∈ others) (ids : IdSet) :
    ids.insertAll more = ids.insertAll others := by
  apply OrderedSet.ext
  intro id
  rw [mem_insertAll, mem_insertAll, h]

theorem insertAll_eq_self_iff : ids.insertAll more = ids ↔ ∀ id ∈ more, id ∈ ids := by
  constructor
  · intro h id hid
    rw [← h]
    exact mem_insertAll.mpr (.inr hid)
  · intro h
    apply OrderedSet.ext
    intro id
    rw [mem_insertAll, or_iff_left_of_imp (h id)]

end IdSet

namespace Store

section entries

variable {entry : Option Bytes} {ids : IdSet} {more others : List String}

/-- What cannot be read is never overwritten. -/
theorem changedEntry_of_error {fault : IdSetFault} (hfault : idsOfEntry entry = .error fault)
    (change : IdSet → IdSet) : changedEntry change entry = entry := by
  rw [changedEntry, hfault]

theorem changedEntry_of_eq (hids : idsOfEntry entry = .ok ids) {change : IdSet → IdSet}
    (h : change ids = ids) : changedEntry change entry = entry := by
  rw [changedEntry_of_ok hids, if_pos h]

theorem changedEntry_nil (entry : Option Bytes) :
    changedEntry (IdSet.insertAll · []) entry = entry := by
  cases hids : idsOfEntry entry with
  | error fault => exact changedEntry_of_error hids _
  | ok ids => exact changedEntry_of_eq hids rfl

/-- A set that has been read fits. -/
theorem fits_of_idsOfEntry (hids : idsOfEntry entry = .ok ids) : ids.Fits := by
  unfold idsOfEntry at hids
  cases entry with
  | some bytes => exact IdSet.fits_of_decode hids
  | none =>
    obtain rfl := Except.ok.inj hids
    exact ⟨by decide, nofun⟩

/-- Ids put in one after the other have been put in together. -/
theorem changedEntry_insertAll_insertAll
    (hfits : ∀ ids, idsOfEntry entry = .ok ids → (ids.insertAll more).Fits) :
    changedEntry (IdSet.insertAll · others) (changedEntry (IdSet.insertAll · more) entry) =
      changedEntry (IdSet.insertAll · (more ++ others)) entry := by
  cases hids : idsOfEntry entry with
  | error fault => simp only [changedEntry_of_error hids]
  | ok ids =>
    have htwice : (ids.insertAll more).insertAll others = ids.insertAll (more ++ others) :=
      (List.foldl_append ..).symm
    by_cases hold : ids.insertAll more = ids
    · rw [changedEntry_of_eq hids hold, changedEntry_of_ok hids, changedEntry_of_ok hids]
      rw [hold] at htwice
      rw [htwice]
    · have hnew : ids.insertAll (more ++ others) ≠ ids := by
        intro hsame
        have hmore := IdSet.insertAll_eq_self_iff.mp hsame
        apply hold
        rw [IdSet.insertAll_eq_self_iff]
        intro id hid
        exact hmore id (List.mem_append_left _ hid)
      rw [changedEntry_of_ok (idsOfEntry_changedEntry hids (hfits ids hids)), htwice,
        changedEntry_of_ok hids, changedEntry_of_ok hids, if_neg hold, if_neg hnew]
      by_cases hsame : ids.insertAll (more ++ others) = ids.insertAll more
      · rw [if_pos hsame, hsame]
      · rw [if_neg hsame]

end entries

/-- The ids that a relation has at a key of the index. -/
noncomputable def idsFor (key : Bytes) (relation : IndexRelation) : List String :=
  ((relation.filter fun pair ↦ Utf8.encode pair.1 = key).image Prod.snd).toList

/-- The pairs have been put into their entries, where these can be read, and nothing else has
happened to the entries. -/
def Entered (relation : IndexRelation) (before after : Store) : Prop :=
  ∀ key, after.entries.get? key =
    changedEntry (IdSet.insertAll · (idsFor key relation)) (before.entries.get? key)

/-- With the ids of these pairs as well, the sets in the entries still fit. -/
def FitsAlso (index : Store) (relation : IndexRelation) : Prop :=
  ∀ key ids, idsOfEntry (index.entries.get? key) = .ok ids →
    (ids.insertAll (idsFor key relation)).Fits

section relations

variable {key : Bytes} {id pathValue : String} {relation more : IndexRelation} {ids : IdSet}
  {first second third : Store}

/-- The ids that go into the entry at a key. -/
theorem mem_idsFor : id ∈ idsFor key relation ↔
    ∃ pathValue, Utf8.encode pathValue = key ∧ (pathValue, id) ∈ relation := by
  simp only [idsFor, Finset.mem_toList, Finset.mem_image, Finset.mem_filter]
  constructor
  · rintro ⟨⟨pathValue, other⟩, ⟨hmem, hkey⟩, rfl⟩
    exact ⟨pathValue, hkey, hmem⟩
  · rintro ⟨pathValue, hkey, hmem⟩
    exact ⟨_, ⟨hmem, hkey⟩, rfl⟩

@[simp]
theorem mem_idsFor_encode :
    id ∈ idsFor (Utf8.encode pathValue) relation ↔ (pathValue, id) ∈ relation := by
  rw [mem_idsFor]
  constructor
  · rintro ⟨other, hkey, hmem⟩
    rwa [Utf8.encode_injective hkey] at hmem
  · intro hmem
    exact ⟨pathValue, rfl, hmem⟩

theorem mem_idsFor_union :
    id ∈ idsFor key (relation ∪ more) ↔ id ∈ idsFor key relation ++ idsFor key more := by
  simp only [List.mem_append, mem_idsFor, Finset.mem_union, and_or_left, exists_or]

theorem idsFor_eq_nil (h : ∀ pair ∈ relation, Utf8.encode pair.1 ≠ key) :
    idsFor key relation = [] := by
  apply List.eq_nil_iff_forall_not_mem.mpr
  intro id hid
  obtain ⟨pathValue, hkey, hmem⟩ := mem_idsFor.mp hid
  exact h _ hmem hkey

theorem FitsAlso.mono (h : first.FitsAlso relation) (hsub : more ⊆ relation) :
    first.FitsAlso more := by
  intro key ids hids
  apply (h key ids hids).subset
  intro id hid
  simp only [IdSet.mem_insertAll, mem_idsFor] at hid ⊢
  rcases hid with hold | ⟨pathValue, hkey, hmem⟩
  · exact .inl hold
  · exact .inr ⟨pathValue, hkey, hsub hmem⟩

theorem entered_empty (h : second.entries = first.entries) : Entered ∅ first second := by
  intro key
  rw [h, idsFor_eq_nil (by simp), changedEntry_nil]

/-- Entering pairs twice is entering their union, in whatever order. -/
theorem Entered.union (h : Entered relation first second) (h' : Entered more second third)
    (hfits : first.FitsAlso relation) : Entered (relation ∪ more) first third := by
  intro key
  have hchange : (IdSet.insertAll · (idsFor key relation ++ idsFor key more)) =
      (IdSet.insertAll · (idsFor key (relation ∪ more))) := by
    funext ids
    exact ids.insertAll_congr fun id ↦ mem_idsFor_union.symm
  calc
    third.entries.get? key = changedEntry (IdSet.insertAll · (idsFor key more))
        (changedEntry (IdSet.insertAll · (idsFor key relation)) (first.entries.get? key)) := by
      rw [h' key, h key]
    _ = changedEntry (IdSet.insertAll · (idsFor key relation ++ idsFor key more))
        (first.entries.get? key) := changedEntry_insertAll_insertAll (hfits key)
    _ = _ := by rw [hchange]

/-- What has been entered determines the bytes. -/
theorem Entered.entries_eq (h : Entered relation first second) (h' : Entered relation first third) :
    second.entries = third.entries := by
  apply OrderedMap.ext
  intro key value
  rw [h key, h' key]

/-- The set in an entry has gained the ids of the pairs at its key. -/
theorem Entered.idsOfEntry_eq (h : Entered relation first second) (hfits : first.FitsAlso relation)
    (hids : idsOfEntry (first.entries.get? key) = .ok ids) :
    idsOfEntry (second.entries.get? key) = .ok (ids.insertAll (idsFor key relation)) := by
  rw [h key]
  exact idsOfEntry_changedEntry hids (hfits key ids hids)

/-- The set of a path-value has gained the ids of its pairs. -/
theorem Entered.idsAt_eq (h : Entered relation first second) (hfits : first.FitsAlso relation)
    (hids : first.idsAt pathValue = .ok ids) :
    second.idsAt pathValue =
      .ok (ids.insertAll (idsFor (Utf8.encode pathValue) relation)) := by
  rw [idsAt_eq_idsOfEntry] at hids ⊢
  exact h.idsOfEntry_eq hfits hids

/-- An entry that cannot be read has stayed as it was. -/
theorem Entered.get?_of_error (h : Entered relation first second) {fault : IdSetFault}
    (hfault : idsOfEntry (first.entries.get? key) = .error fault) :
    second.entries.get? key = first.entries.get? key :=
  (h key).trans (changedEntry_of_error hfault _)

/-- Entries can be read afterwards if they could before. -/
theorem Entered.idsAt_eq_error_iff (h : Entered relation first second)
    (hfits : first.FitsAlso relation) {fault : IdSetFault} :
    second.idsAt pathValue = .error fault ↔ first.idsAt pathValue = .error fault := by
  cases hids : first.idsAt pathValue with
  | error other =>
    rw [idsAt_eq_idsOfEntry] at hids ⊢
    rw [h.get?_of_error hids, hids]
  | ok ids =>
    rw [h.idsAt_eq hfits hids]
    exact iff_of_false nofun nofun

/-- Sets that have room for the ids of a relation still do when some of them have been entered. -/
theorem Entered.fitsAlso (h : Entered more first second) (hfits : first.FitsAlso relation)
    (hsub : more ⊆ relation) : second.FitsAlso relation := by
  intro key ids hids
  cases hbefore : idsOfEntry (first.entries.get? key) with
  | error fault =>
    rw [h.get?_of_error hbefore, hbefore] at hids
    cases hids
  | ok old =>
    obtain rfl := Except.ok.inj ((h.idsOfEntry_eq (hfits.mono hsub) hbefore).symm.trans hids)
    apply (hfits key old hbefore).subset
    intro id hid
    simp only [IdSet.mem_insertAll, mem_idsFor] at hid ⊢
    rcases hid with (hold | ⟨pathValue, hkey, hmem⟩) | hnew
    · exact .inl hold
    · exact .inr ⟨pathValue, hkey, hsub hmem⟩
    · exact .inr hnew

end relations

/-! ## Documents -/

/-- All sizes fit into 64 bits, also when the ids of all these documents come to one entry. -/
structure Accommodates (index : Store) (documents : List (String × Document)) : Prop where
  size : ∀ pathValue ids, index.idsAt pathValue = .ok ids → ids.size + documents.length < 2 ^ 64
  length : ∀ pair ∈ documents, (Utf8.encode pair.1).length < 2 ^ 64

section documents

variable {index before after : Store} {id : String} {done : List String}

theorem Accommodates.fitsAlso {documents : List (String × Document)}
    (h : index.Accommodates documents) : index.FitsAlso (relationOf documents) := by
  intro key ids hids
  have hold := fits_of_idsOfEntry hids
  by_cases hkey : ∃ pathValue, Utf8.encode pathValue = key
  · obtain ⟨pathValue, rfl⟩ := hkey
    have hmem : ∀ id ∈ ids.insertAll (idsFor (Utf8.encode pathValue) (relationOf documents)),
        id ∈ ids.toList ++ documents.map Prod.fst := by
      intro id hid
      rw [IdSet.mem_insertAll, mem_idsFor_encode, mem_relationOf] at hid
      rcases hid with hid | ⟨document, hdocument, -⟩
      · exact List.mem_append_left _ hid
      · exact List.mem_append_right _ (List.mem_map_of_mem hdocument)
    constructor
    · have hroom := h.size pathValue ids ((idsAt_eq_idsOfEntry index pathValue).trans hids)
      have hsize := OrderedSet.size_le_of_subset hmem
      rw [List.length_append, List.length_map] at hsize
      exact Nat.lt_of_le_of_lt hsize hroom
    · intro id hid
      rcases List.mem_append.mp (hmem id hid) with hid | hid
      · exact hold.length id hid
      · obtain ⟨pair, hpair, rfl⟩ := List.mem_map.mp hid
        exact h.length pair hpair
  · have hnone : ∀ pair ∈ relationOf documents, Utf8.encode pair.1 ≠ key := by
      intro pair _ hpair
      exact hkey ⟨pair.1, hpair⟩
    rw [idsFor_eq_nil hnone]
    exact hold

/-- Putting an id into entries is entering its pairs. -/
theorem Edited.entered (h : Edited (·.insert id) done before after) :
    Entered (pairsOf id done) before after := by
  intro key
  by_cases hkey : key ∈ done.map Utf8.encode
  · obtain ⟨pathValue, hmem, rfl⟩ := List.mem_map.mp hkey
    have hchange : (IdSet.insertAll · (idsFor (Utf8.encode pathValue) (pairsOf id done))) =
        (OrderedSet.insert · id) := by
      funext ids
      apply OrderedSet.ext
      intro other
      simp [mem_pairsOf, hmem, or_comm]
    rw [hchange]
    exact h.entry pathValue hmem
  · have hnone : ∀ pair ∈ pairsOf id done, Utf8.encode pair.1 ≠ key := by
      intro pair hpair heq
      exact hkey (List.mem_map.mpr ⟨pair.1, (mem_pairsOf.mp hpair).1, heq⟩)
    rw [h.other key hkey, idsFor_eq_nil hnone, changedEntry_nil]

theorem pairsOf_mono {pathValues : List String} (h : done ⊆ pathValues) (id : String) :
    pairsOf id done ⊆ pairsOf id pathValues := by
  intro pair hpair
  rw [mem_pairsOf] at hpair ⊢
  exact ⟨h hpair.1, hpair.2⟩

/-- Where no call fails, an id is put into an entry that can be read. -/
theorem Reliable.mergeId_entered (hreliable : index.Reliable) {pathValue : String} {ids : IdSet}
    (hids : index.idsAt pathValue = .ok ids) (id : String) :
    ∃ after, mergeId id index pathValue = (.ok (id ∉ ids), after) ∧ after.Reliable ∧
      Entered {(pathValue, id)} index after := by
  obtain ⟨after, hfollows, ⟨others, hothers, hmerge, -⟩ | ⟨-, -, hcause⟩⟩ :=
    index.updateEntry_cases (·.insert id) pathValue
  · obtain rfl := Except.ok.inj (hids.symm.trans hothers)
    simp only [ne_eq, OrderedSet.insert_eq_self_iff] at hmerge
    refine ⟨after, hmerge, hfollows.reliable hreliable, ?_⟩
    rcases index.updateEntry_edited (·.insert id) pathValue with
      ⟨changed, other, hmerge', hedited⟩ | ⟨error, other, hmerge', -⟩
    · rw [hmerge] at hmerge'
      obtain rfl := (Prod.mk.inj hmerge').2
      simpa [pairsOf] using hedited.entered
    · cases hmerge.symm.trans hmerge'
  · obtain ⟨fault, hfault⟩ := hcause (.inl hreliable)
    cases hids.symm.trans hfault

/-- Putting a document in is nothing but calls of the store. -/
theorem follows_addToIndex (index : Store) (id : String) (document : Document) :
    index.Follows (index.addToIndex id document).2 := by
  obtain ⟨after, hgains, ⟨⟨_, hadd⟩, -⟩ | ⟨⟨_, hadd⟩, -⟩⟩ := index.addToIndex_cases id document
  all_goals
    rw [hadd]
    exact hgains.follows

/-- Where no call fails, a document is entered in full, unless one of its entries cannot be read. -/
theorem Reliable.addToIndex_entered (hreliable : index.Reliable) (id : String)
    (document : Document) :
    ∃ done result after, index.addToIndex id document = (result, after) ∧ after.Reliable ∧
      Entered done index after ∧
      ((∃ count, result = .ok count) ∧ done = pairsOf id document.pathValues.toList ∧
          ¬ index.HasBadEntry document.pathValues.toList ∨
        (∃ error, result = .error error) ∧ done ⊆ pairsOf id document.pathValues.toList ∧
          index.HasBadEntry document.pathValues.toList) := by
  have hfollows := index.follows_addToIndex id document
  obtain ⟨done, rest, result, after, hsplit, hadd, hedited, houtcome⟩ :=
    index.updateEntries_edited (·.insert id) document.pathValues.nodup
  replace hadd : index.addToIndex id document = (result, after) := hadd
  rw [hadd] at hfollows
  refine ⟨pairsOf id done, result, after, hadd, hfollows.reliable hreliable, hedited.entered, ?_⟩
  rcases houtcome with ⟨hok, rfl⟩ | ⟨herror, pathValue, tail, rfl, hcause⟩
  · rw [List.append_nil] at hsplit
    rw [hsplit]
    exact .inl ⟨hok, rfl, not_hasBadEntry_of_readable hedited.readable⟩
  · obtain ⟨fault, hfault⟩ := hcause (hreliable.passes after)
    rw [hsplit]
    right
    refine ⟨herror, pairsOf_mono (List.subset_append_left done _) id, ?_⟩
    exact ⟨pathValue, by simp, fault, hfault⟩

end documents

end Store

end PathStore
