import PathStore.Proofs.Index.Relation
import PathStore.Proofs.Storage.Faults

/-!
# Interrupted changes of the index

A change of the index goes through the path-values of a document and stops at the first one whose
entry cannot be read or written, so there is always a place up to which it has been made in full,
and from which on not at all.  Making it again goes over the first part without writing anything,
which is why a change that is repeated until no call fails leads to the entries of a change that
never was interrupted.  An entry that is no set of ids is such a place for every run, and stays one.
-/

namespace PathStore

namespace Store

def idsOfEntry : Option Bytes → Except IdSetFault IdSet
  | some bytes => IdSet.decode bytes
  | none => .ok .empty

theorem idsAt_eq_idsOfEntry (index : Store) (pathValue : String) :
    index.idsAt pathValue = idsOfEntry (index.entries.get? (Utf8.encode pathValue)) := by
  unfold idsAt
  cases index.entries.get? (Utf8.encode pathValue) <;> rfl

theorem idsOfEntry_stored? {ids : IdSet} (hfits : ids.Fits) :
    idsOfEntry (stored? ids) = .ok ids := by
  unfold stored?
  cases hempty : ids.isEmpty with
  | true => exact congrArg Except.ok (OrderedSet.isEmpty_iff.mp hempty).symm
  | false => exact IdSet.decode_encode hfits

/-- What a change of its set makes of an entry.  One that would not change is left as it is. -/
def changedEntry (change : IdSet → IdSet) (entry : Option Bytes) : Option Bytes :=
  match idsOfEntry entry with
  | .ok ids => if change ids = ids then entry else stored? (change ids)
  | .error _ => entry

section changes

variable {change : IdSet → IdSet} {entry : Option Bytes} {ids : IdSet}

theorem changedEntry_of_ok (hids : idsOfEntry entry = .ok ids) :
    changedEntry change entry = if change ids = ids then entry else stored? (change ids) := by
  rw [changedEntry, hids]

/-- The set in a changed entry is the changed set. -/
theorem idsOfEntry_changedEntry (hids : idsOfEntry entry = .ok ids) (hfits : (change ids).Fits) :
    idsOfEntry (changedEntry change entry) = .ok (change ids) := by
  rw [changedEntry_of_ok hids]
  split
  · rename_i hsame
    rw [hids, hsame]
  · exact idsOfEntry_stored? hfits

/-- Changing an entry twice is changing it once. -/
theorem changedEntry_changedEntry (hids : idsOfEntry entry = .ok ids) (hfits : (change ids).Fits)
    (hagain : change (change ids) = change ids) :
    changedEntry change (changedEntry change entry) = changedEntry change entry := by
  rw [changedEntry_of_ok (idsOfEntry_changedEntry hids hfits), if_pos hagain]

end changes

section passes

variable {index : Store} {pathValue : String} {ids : IdSet} {change : IdSet → IdSet}

theorem lookup_snd (index : Store) (pathValue : String) :
    (index.lookup pathValue).2 = (index.get (Utf8.encode pathValue)).2 := by
  unfold lookup
  rcases index.get (Utf8.encode pathValue) with ⟨_ | _ | _, _⟩ <;> rfl

theorem leadsTo_lookup (index : Store) (pathValue : String) :
    index.LeadsTo (index.lookup pathValue).2 := by
  rw [lookup_snd]
  exact index.leadsTo_get _

/-- A look-up that passes tells the set in the entry. -/
theorem lookup_of_passes (h : index.Passes (index.lookup pathValue).2) :
    (index.lookup pathValue).1 = (index.idsAt pathValue).mapError .idSet := by
  rw [lookup_snd] at h
  have hget := get_of_passes h
  unfold lookup idsAt
  generalize index.get (Utf8.encode pathValue) = call at hget ⊢
  rcases call with ⟨result, after⟩
  obtain rfl : result = _ := hget
  cases index.entries.get? (Utf8.encode pathValue) <;> rfl

theorem leadsTo_writeEntry (index : Store) (pathValue : String) (ids : IdSet) :
    index.LeadsTo (index.writeEntry pathValue ids).2 := by
  unfold writeEntry
  cases ids.isEmpty with
  | true => exact index.leadsTo_remove _
  | false => exact index.leadsTo_set _ _

theorem writeEntry_of_passes (h : index.Passes (index.writeEntry pathValue ids).2) :
    (index.writeEntry pathValue ids).1 = .ok () := by
  unfold writeEntry at h ⊢
  cases hempty : ids.isEmpty with
  | true =>
    rw [hempty] at h
    exact congrArg (Except.mapError Error.store) (remove_of_passes h)
  | false =>
    rw [hempty] at h
    exact congrArg (Except.mapError Error.store) (set_of_passes h)

theorem leadsTo_updateEntry (index : Store) (change : IdSet → IdSet) (pathValue : String) :
    index.LeadsTo (index.updateEntry change pathValue).2 := by
  have hlookup := index.leadsTo_lookup pathValue
  unfold updateEntry
  generalize index.lookup pathValue = call at hlookup ⊢
  rcases call with ⟨_ | ids, looked⟩
  · exact hlookup
  · dsimp only
    split
    · exact hlookup
    · exact hlookup.trans (looked.leadsTo_writeEntry _ _)

/-- Where no call fails, an entry that can be read is changed. -/
theorem updateEntry_of_passes (h : index.Passes (index.updateEntry change pathValue).2)
    (hids : index.idsAt pathValue = .ok ids) :
    ∃ changed, (index.updateEntry change pathValue).1 = .ok changed := by
  have hlead := index.leadsTo_lookup pathValue
  have hlookup : index.Passes (index.lookup pathValue).2 →
      (index.lookup pathValue).1 = (index.idsAt pathValue).mapError .idSet := lookup_of_passes
  unfold updateEntry at h ⊢
  rw [hids] at hlookup
  generalize index.lookup pathValue = call at h hlead hlookup ⊢
  rcases call with ⟨result, looked⟩
  cases result with
  | error error => cases hlookup h
  | ok found =>
    dsimp only at h ⊢
    split
    · exact ⟨false, rfl⟩
    · rename_i hchange
      rw [if_neg hchange] at h
      exact ⟨true, congrArg (Except.map _) (writeEntry_of_passes (h.right hlead))⟩

end passes

/-- The entries of these path-values have been changed, and could be read before, and all others
are as they were. -/
structure Edited (change : IdSet → IdSet) (done : List String) (before after : Store) : Prop where
  readable : ∀ pathValue ∈ done, ∃ ids, before.idsAt pathValue = .ok ids
  entry : ∀ pathValue ∈ done, after.entries.get? (Utf8.encode pathValue) =
    changedEntry change (before.entries.get? (Utf8.encode pathValue))
  other : ∀ key ∉ done.map Utf8.encode, after.entries.get? key = before.entries.get? key

section runs

variable {change : IdSet → IdSet} {pathValue : String} {done pathValues : List String}
  {first second third : Store}

theorem edited_nil (h : second.entries = first.entries) : Edited change [] first second :=
  ⟨nofun, nofun, fun _ _ ↦ by rw [h]⟩

/-- Entries of other path-values have stayed. -/
theorem Edited.get?_of_not_mem (h : Edited change done first second) (hmem : pathValue ∉ done) :
    second.entries.get? (Utf8.encode pathValue) = first.entries.get? (Utf8.encode pathValue) := by
  apply h.other
  intro hkey
  obtain ⟨other, hother, heq⟩ := List.mem_map.mp hkey
  exact hmem (Utf8.encode_injective heq ▸ hother)

/-- An edit at one path-value and then at others is an edit at all of them. -/
theorem Edited.cons (h : Edited change [pathValue] first second)
    (h' : Edited change done second third) (hnot : pathValue ∉ done) :
    Edited change (pathValue :: done) first third := by
  -- The first step has not touched the entries of the others.
  have hlater : ∀ other ∈ done,
      second.entries.get? (Utf8.encode other) = first.entries.get? (Utf8.encode other) := by
    intro other hother
    apply h.get?_of_not_mem
    intro heq
    exact hnot (List.mem_singleton.mp heq ▸ hother)
  refine ⟨?_, ?_, ?_⟩
  · intro other hother
    rcases List.mem_cons.mp hother with rfl | hother
    · exact h.readable other (List.mem_singleton_self other)
    · rw [← idsAt_congr (hlater other hother)]
      exact h'.readable other hother
  · intro other hother
    rcases List.mem_cons.mp hother with rfl | hother
    · rw [h'.get?_of_not_mem hnot]
      exact h.entry other (List.mem_singleton_self other)
    · rw [h'.entry other hother, hlater other hother]
  · intro key hkey
    rw [List.map_cons, List.mem_cons, not_or] at hkey
    rw [h'.other key hkey.2]
    exact h.other key (by simpa using hkey.1)

/-- Changing one entry does so, or fails and leaves everything as it is. -/
theorem updateEntry_edited (index : Store) (change : IdSet → IdSet) (pathValue : String) :
    (∃ changed after, index.updateEntry change pathValue = (.ok changed, after) ∧
        Edited change [pathValue] index after) ∨
      (∃ error after, index.updateEntry change pathValue = (.error error, after) ∧
        after.entries = index.entries ∧
        (index.Passes after → ∃ fault, index.idsAt pathValue = .error fault)) := by
  obtain ⟨after, -, ⟨ids, hids, hupdate, hentries⟩ | ⟨⟨error, hupdate⟩, hentries, -⟩⟩ :=
    index.updateEntry_cases change pathValue
  · left
    refine ⟨_, after, hupdate, ?_, ?_, ?_⟩
    · simpa using ⟨ids, hids⟩
    · intro other hother
      obtain rfl := List.mem_singleton.mp hother
      rw [changedEntry_of_ok (idsAt_eq_idsOfEntry index other ▸ hids), hentries]
      by_cases hsame : change ids = ids <;> simp [hsame]
    · intro key hkey
      have hsame : ¬ (change ids ≠ ids ∧ Utf8.encode pathValue = key) := by
        intro h
        exact hkey (by simp [h.2])
      rw [hentries, if_neg hsame]
  · right
    refine ⟨error, after, hupdate, hentries, ?_⟩
    intro hpasses
    cases hids : index.idsAt pathValue with
    | error fault => exact ⟨fault, rfl⟩
    | ok ids =>
      have hafter : (index.updateEntry change pathValue).2 = after := by rw [hupdate]
      obtain ⟨changed, hok⟩ := updateEntry_of_passes (hafter ▸ hpasses) hids
      rw [hupdate] at hok
      cases hok

/-- A run changes the entries up to a place in the order of the path-values.  It is the end if the
run succeeds; and if the run fails although no call does, the entry there cannot be read. -/
theorem updateEntries_edited (index : Store) (change : IdSet → IdSet) {pathValues : List String}
    (hnodup : pathValues.Nodup) :
    ∃ done rest result after, pathValues = done ++ rest ∧
      index.updateEntries (updateEntry change) pathValues = (result, after) ∧
      Edited change done index after ∧
      ((∃ count, result = .ok count) ∧ rest = [] ∨
        (∃ error, result = .error error) ∧ ∃ pathValue tail, rest = pathValue :: tail ∧
          (index.Passes after → ∃ fault, index.idsAt pathValue = .error fault)) := by
  induction pathValues generalizing index with
  | nil => exact ⟨[], [], .ok 0, index, rfl, rfl, edited_nil rfl, .inl ⟨⟨0, rfl⟩, rfl⟩⟩
  | cons pathValue pathValues ih =>
    obtain ⟨hnot, hnodup⟩ := List.nodup_cons.mp hnodup
    have hlead := index.leadsTo_updateEntry change pathValue
    rw [updateEntries]
    rcases index.updateEntry_edited change pathValue with
      ⟨changed, first, hupdate, hedited⟩ | ⟨error, first, hupdate, hentries, hcause⟩
    · rw [hupdate] at hlead ⊢
      obtain ⟨done, rest, result, after, rfl, hrun, hedited', houtcome⟩ := ih first hnodup
      rw [List.mem_append, not_or] at hnot
      have hcons := hedited.cons hedited' hnot.1
      dsimp only
      rw [hrun]
      refine ⟨pathValue :: done, rest, _, after, rfl, rfl, hcons, ?_⟩
      rcases houtcome with ⟨⟨count, rfl⟩, hrest⟩ | ⟨⟨error, rfl⟩, next, tail, rfl, hcause⟩
      · exact .inl ⟨⟨_, rfl⟩, hrest⟩
      · right
        refine ⟨⟨_, rfl⟩, next, tail, rfl, ?_⟩
        intro hpasses
        obtain ⟨fault, hfault⟩ := hcause (hpasses.right hlead)
        have hnext : next ∉ [pathValue] := by
          intro heq
          exact hnot.2 (by simp [List.mem_singleton.mp heq])
        rw [idsAt_congr (hedited.get?_of_not_mem hnext)] at hfault
        exact ⟨fault, hfault⟩
    · rw [hupdate]
      refine ⟨[], pathValue :: pathValues, .error error, first, rfl, rfl, edited_nil hentries, ?_⟩
      right
      exact ⟨⟨error, rfl⟩, pathValue, pathValues, rfl, hcause⟩

end runs

/-! ## Repeating a run -/

/-- The path-values before the first one whose entry cannot be read. -/
def readablePrefix (index : Store) (pathValues : List String) : List String :=
  pathValues.takeWhile fun pathValue ↦ (index.idsAt pathValue).isOk

section repeating

variable {change : IdSet → IdSet} {done pathValues : List String} {index before after : Store}

/-- The part that is done ends where an entry cannot be read, and the rest goes on from there. -/
theorem Edited.readablePrefix_append (h : Edited change done before after) (rest : List String) :
    before.readablePrefix (done ++ rest) = done ++ before.readablePrefix rest := by
  apply List.takeWhile_append_of_pos
  intro pathValue hmem
  obtain ⟨ids, hids⟩ := h.readable pathValue hmem
  rw [hids]
  rfl

/-- A run without faults gets as far as the entries can be read. -/
theorem updateEntries_of_passes (hnodup : pathValues.Nodup)
    (h : index.Passes (index.updateEntries (updateEntry change) pathValues).2) :
    Edited change (index.readablePrefix pathValues) index
      (index.updateEntries (updateEntry change) pathValues).2 := by
  obtain ⟨done, rest, result, after, rfl, hrun, hedited, houtcome⟩ :=
    index.updateEntries_edited change hnodup
  rw [hrun] at h ⊢
  have hrest : index.readablePrefix rest = [] := by
    rcases houtcome with ⟨-, rfl⟩ | ⟨-, pathValue, tail, rfl, hcause⟩
    · rfl
    · obtain ⟨fault, hfault⟩ := hcause h
      rw [readablePrefix, List.takeWhile_cons, hfault]
      rfl
  rwa [hedited.readablePrefix_append, hrest, List.append_nil]

/-- The set of a path-value that has been edited is the changed set. -/
theorem Edited.idsAt_eq (h : Edited change done before after) {pathValue : String}
    (hmem : pathValue ∈ done) {ids : IdSet} (hids : before.idsAt pathValue = .ok ids)
    (hfits : (change ids).Fits) : after.idsAt pathValue = .ok (change ids) := by
  rw [idsAt_eq_idsOfEntry, h.entry pathValue hmem]
  exact idsOfEntry_changedEntry (idsAt_eq_idsOfEntry before pathValue ▸ hids) hfits

/-- Changed entries can be read as before, so the next run gets as far. -/
theorem Edited.readablePrefix_eq (h : Edited change done before after)
    (hfits : ∀ pathValue ∈ done, ∀ ids, before.idsAt pathValue = .ok ids → (change ids).Fits)
    (pathValues : List String) :
    after.readablePrefix pathValues = before.readablePrefix pathValues := by
  have hreadable (pathValue : String) :
      (after.idsAt pathValue).isOk = (before.idsAt pathValue).isOk := by
    by_cases hmem : pathValue ∈ done
    · obtain ⟨ids, hids⟩ := h.readable pathValue hmem
      rw [h.idsAt_eq hmem hids (hfits pathValue hmem ids hids), hids]
      rfl
    · rw [idsAt_congr (h.get?_of_not_mem hmem)]
  simp only [readablePrefix, hreadable]

theorem readablePrefix_congr (h : after.entries = before.entries) (pathValues : List String) :
    after.readablePrefix pathValues = before.readablePrefix pathValues := by
  have hedited : Edited id [] before after := edited_nil h
  exact hedited.readablePrefix_eq nofun pathValues

/-- Changing entries, of which some have been changed before, comes to the same as changing them
once. -/
theorem Edited.entries_eq {started retry twice clean once : Store} {all : List String}
    (hstarted : Edited change done index started) (htwice : Edited change all retry twice)
    (honce : Edited change all clean once) (hretry : retry.entries = started.entries)
    (hclean : clean.entries = index.entries) (hsub : done ⊆ all)
    (hfits : ∀ pathValue ∈ done, ∀ ids, index.idsAt pathValue = .ok ids → (change ids).Fits)
    (hagain : ∀ ids, change (change ids) = change ids) : twice.entries = once.entries := by
  apply OrderedMap.ext
  intro key value
  suffices h : twice.entries.get? key = once.entries.get? key by rw [h]
  by_cases hkey : key ∈ all.map Utf8.encode
  · obtain ⟨pathValue, hmem, rfl⟩ := List.mem_map.mp hkey
    rw [htwice.entry pathValue hmem, honce.entry pathValue hmem, hretry, hclean]
    by_cases hdone : pathValue ∈ done
    · obtain ⟨ids, hids⟩ := hstarted.readable pathValue hdone
      rw [hstarted.entry pathValue hdone]
      exact changedEntry_changedEntry (idsAt_eq_idsOfEntry index pathValue ▸ hids)
        (hfits pathValue hdone ids hids) (hagain ids)
    · rw [hstarted.get?_of_not_mem hdone]
  · rw [htwice.other key hkey, honce.other key hkey, hretry, hclean]
    apply hstarted.other
    intro hdone
    obtain ⟨pathValue, hmem, rfl⟩ := List.mem_map.mp hdone
    exact hkey (List.mem_map_of_mem (hsub hmem))

/-- Once no call fails, it does not matter that the run had been started before. -/
theorem entries_eq_of_repeated (hnodup : pathValues.Nodup)
    (hfits : ∀ pathValue ∈ pathValues, ∀ ids,
      index.idsAt pathValue = .ok ids → (change ids).Fits)
    (hagain : ∀ ids, change (change ids) = change ids) {retry clean : Store}
    (hretry : retry.entries = (index.updateEntries (updateEntry change) pathValues).2.entries)
    (hclean : clean.entries = index.entries)
    (hpasses : retry.Passes (retry.updateEntries (updateEntry change) pathValues).2)
    (hpasses' : clean.Passes (clean.updateEntries (updateEntry change) pathValues).2) :
    (retry.updateEntries (updateEntry change) pathValues).2.entries =
      (clean.updateEntries (updateEntry change) pathValues).2.entries := by
  obtain ⟨done, rest, result, started, rfl, hrun, hstarted, -⟩ :=
    index.updateEntries_edited change hnodup
  rw [hrun] at hretry
  replace hfits : ∀ pathValue ∈ done, ∀ ids,
      index.idsAt pathValue = .ok ids → (change ids).Fits :=
    fun pathValue hmem ↦ hfits pathValue (List.mem_append_left _ hmem)
  have htwice := updateEntries_of_passes hnodup hpasses
  have honce := updateEntries_of_passes hnodup hpasses'
  rw [readablePrefix_congr hretry, hstarted.readablePrefix_eq hfits] at htwice
  rw [readablePrefix_congr hclean] at honce
  -- The first run has not got further than the others.
  have hsub : done ⊆ index.readablePrefix (done ++ rest) := by
    rw [hstarted.readablePrefix_append]
    exact List.subset_append_left _ _
  exact hstarted.entries_eq htwice honce hretry hclean hsub hfits hagain

end repeating

end Store

namespace IndexEdit

/-- Makes the edit at all path-values of a document. -/
def perform (index : Store) (id : String) (document : Document) :
    IndexEdit → Except Error Nat × Store
  | merge => index.addToIndex id document
  | retract => index.removeFromIndex id document

/-- Both edits change the sets in the entries one after the other. -/
theorem perform_eq (edit : IndexEdit) (index : Store) (id : String) (document : Document) :
    edit.perform index id document =
      index.updateEntries (Store.updateEntry (edit.onIds id)) document.pathValues.toList := by
  cases edit <;> rfl

/-- Making an edit twice is making it once. -/
theorem onIds_onIds (edit : IndexEdit) (id : String) (ids : IdSet) :
    edit.onIds id (edit.onIds id ids) = edit.onIds id ids := by
  cases edit with
  | merge => exact OrderedSet.insert_eq_self_iff.mpr (OrderedSet.mem_insert.mpr (.inl rfl))
  | retract => exact OrderedSet.erase_eq_self_iff.mpr fun h ↦ (OrderedSet.mem_erase.mp h).2 rfl

/-- The edit is safe to repeat, whichever of its calls fail.  If it ends in an error, it has been
made at the path-values before some place in the order of their bytes, and nowhere else.  Entries
that are no sets of ids stay.  And where the same edit is made once more and no call fails, the
entries become those of an edit from the start in which no call fails. -/
structure Repeatable (edit : IndexEdit) (index : Store) (id : String) (document : Document) :
    Prop where
  ordered : (document.pathValues.toList.map Utf8.encode).Pairwise (· < ·)
  stopped : ∀ error, (edit.perform index id document).1 = .error error →
    ∃ done pathValue rest, document.pathValues.toList = done ++ pathValue :: rest ∧
      (∀ earlier ∈ done, ∃ ids, index.idsAt earlier = .ok ids ∧
        (edit.perform index id document).2.idsAt earlier = .ok (edit.onIds id ids)) ∧
      ∀ key ∉ done.map Utf8.encode,
        (edit.perform index id document).2.entries.get? key = index.entries.get? key
  unreadable : ∀ key bytes fault, index.entries.get? key = some bytes →
    IdSet.decode bytes = .error fault →
      (edit.perform index id document).2.entries.get? key = some bytes
  repeated : ∀ retry clean : Store,
    retry.entries = (edit.perform index id document).2.entries → clean.entries = index.entries →
      retry.Passes (edit.perform retry id document).2 →
      clean.Passes (edit.perform clean id document).2 →
        (edit.perform retry id document).2.entries = (edit.perform clean id document).2.entries

theorem fits_onIds {edit : IndexEdit} {index : Store} {id : String} {pathValues : List String}
    (h : edit = merge → index.FitsWith id pathValues) :
    ∀ pathValue ∈ pathValues, ∀ ids,
      index.idsAt pathValue = .ok ids → IdSet.Fits (edit.onIds id ids) := by
  intro pathValue hmem ids hids
  cases edit with
  | merge => exact h rfl pathValue hmem ids hids
  | retract => exact (Store.fits_of_idsAt hids).subset fun _ hid ↦ (OrderedSet.mem_erase.mp hid).1

/-- Putting a document in or taking it out is safe to repeat, whichever calls fail. -/
theorem perform_repeatable {edit : IndexEdit} {index : Store} {id : String} {document : Document}
    (hfits : edit = merge → index.FitsWith id document.pathValues.toList) :
    edit.Repeatable index id document := by
  have hnodup := document.pathValues.nodup
  have hfits := fits_onIds hfits
  obtain ⟨done, rest, result, after, hsplit, hrun, hedited, houtcome⟩ :=
    index.updateEntries_edited (edit.onIds id) hnodup
  have hperform : edit.perform index id document = (result, after) :=
    (edit.perform_eq index id document).trans hrun
  refine ⟨IdSet.pairwise_encode document.pathValues, ?_, ?_, ?_⟩
  · intro error herror
    rw [hperform] at herror ⊢
    obtain rfl : result = .error error := herror
    obtain ⟨⟨count, hok⟩, -⟩ | ⟨-, pathValue, tail, rfl, -⟩ := houtcome
    · cases hok
    refine ⟨done, pathValue, tail, hsplit, ?_, hedited.other⟩
    intro earlier hmem
    obtain ⟨ids, hids⟩ := hedited.readable earlier hmem
    have hearlier : earlier ∈ document.pathValues.toList := hsplit ▸ List.mem_append_left _ hmem
    exact ⟨ids, hids, hedited.idsAt_eq hmem hids (hfits earlier hearlier ids hids)⟩
  · intro key bytes fault hbytes hfault
    rw [hperform, ← hbytes]
    apply hedited.other
    intro hkey
    obtain ⟨pathValue, hmem, rfl⟩ := List.mem_map.mp hkey
    obtain ⟨ids, hids⟩ := hedited.readable pathValue hmem
    rw [Store.idsAt_eq_idsOfEntry, hbytes] at hids
    cases hids.symm.trans hfault
  · intro retry clean
    simp only [perform_eq]
    exact Store.entries_eq_of_repeated hnodup hfits (edit.onIds_onIds id)

/-- An index with one document and with one entry that is no set of ids.  It takes one more write
and then fails. -/
def damagedIndex : Store :=
  let named := ((Store.empty .index).writeEntry "a=1" (OrderedSet.ofList ["m"])).2
  { (named.set (Utf8.encode "c=3") [1]).2 with sets := .failingAfter 1 }

def threeMembers : Document :=
  [("a", .number (.integer 1)), ("b", .number (.integer 2)), ("c", .number (.integer 3))]

theorem perform_repeatable_damaged :
    merge.Repeatable damagedIndex "n" threeMembers ∧
      (merge.perform damagedIndex "n" threeMembers).1 = .error (.store ⟨.index, .set⟩) := by
  refine ⟨perform_repeatable ?_, by rfl⟩
  intro _ pathValue hmem ids hids
  have hpathValues : threeMembers.pathValues.toList = ["a=1", "b=2", "c=3"] := by rfl
  rw [hpathValues] at hmem
  simp only [List.mem_cons, List.not_mem_nil, or_false] at hmem
  rcases hmem with rfl | rfl | rfl
  · have hentry : damagedIndex.idsAt "a=1" = .ok (OrderedSet.ofList ["m"]) := by rfl
    obtain rfl := Except.ok.inj (hentry.symm.trans hids)
    exact ⟨by decide, by decide⟩
  · have hentry : damagedIndex.idsAt "b=2" = .ok .empty := by rfl
    obtain rfl := Except.ok.inj (hentry.symm.trans hids)
    exact ⟨by decide, by decide⟩
  · have hentry : damagedIndex.idsAt "c=3" = .error .numberCutOff := by rfl
    cases hentry.symm.trans hids

end IndexEdit

end PathStore
