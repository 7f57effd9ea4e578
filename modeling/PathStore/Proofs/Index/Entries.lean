import PathStore.Index.Entries
import PathStore.Proofs.Index.IdSet
import PathStore.Proofs.Storage.Store

/-!
# Laws of the index

Putting an id into the entries of path-values is described by what it does to the entries, byte for
byte, at whichever call it fails: an entry either stays as it was or is the stored form of its old
set with the id, and the latter only at the given path-values.  The sets themselves follow from the
bytes where the stored forms fit.
-/

namespace PathStore.Store

def idsAt (index : Store) (pathValue : String) : Except IdSetFault IdSet :=
  match index.entries.get? (Utf8.encode pathValue) with
  | some bytes => IdSet.decode bytes
  | none => .ok .empty

/-- The entry of one of the path-values cannot be read. -/
def HasBadEntry (index : Store) (pathValues : List String) : Prop :=
  ∃ pathValue ∈ pathValues, ∃ fault, index.idsAt pathValue = .error fault

def Names (index : Store) (pathValues : List String) (id : String) : Prop :=
  ∀ pathValue ∈ pathValues, ∃ ids, index.idsAt pathValue = .ok ids ∧ id ∈ ids

theorem not_hasBadEntry_of_readable {index : Store} {pathValues : List String}
    (h : ∀ pathValue ∈ pathValues, ∃ ids, index.idsAt pathValue = .ok ids) :
    ¬ index.HasBadEntry pathValues := by
  intro hbad
  obtain ⟨pathValue, hmem, fault, hfault⟩ := hbad
  obtain ⟨ids, hids⟩ := h pathValue hmem
  cases hids.symm.trans hfault

theorem idsAt_congr {index other : Store} {pathValue : String}
    (h : index.entries.get? (Utf8.encode pathValue) = other.entries.get? (Utf8.encode pathValue)) :
    index.idsAt pathValue = other.idsAt pathValue := by
  unfold idsAt
  rw [h]

theorem idsAt_of_get? {index : Store} {pathValue : String} {ids : IdSet} (hfits : ids.Fits)
    (h : index.entries.get? (Utf8.encode pathValue) = some ids.encode) :
    index.idsAt pathValue = .ok ids := by
  rw [idsAt, h]
  exact IdSet.decode_encode hfits

/-- A set that can be read fits into the numbers of its stored form. -/
theorem fits_of_idsAt {index : Store} {pathValue : String} {ids : IdSet}
    (h : index.idsAt pathValue = .ok ids) : ids.Fits := by
  rw [idsAt] at h
  split at h
  · exact IdSet.fits_of_decode h
  · obtain rfl := Except.ok.inj h
    exact ⟨by decide, nofun⟩

theorem Unchanged.idsAt_eq {before after : Store} (h : before.Unchanged after)
    (pathValue : String) : after.idsAt pathValue = before.idsAt pathValue :=
  idsAt_congr (by rw [h.entries])

/-- Looking up tells the set in the entry, unless the call fails. -/
theorem lookup_cases (index : Store) (pathValue : String) :
    ∃ after, index.Unchanged after ∧
      (index.lookup pathValue = ((index.idsAt pathValue).mapError .idSet, after) ∨
        ¬ index.Spared after ∧ ∃ error, index.lookup pathValue = (.error error, after)) := by
  obtain ⟨after, hafter, hget | ⟨hspared, fault, hget⟩⟩ :=
    index.get_cases (Utf8.encode pathValue)
  · refine ⟨after, hafter, ?_⟩
    left
    unfold lookup idsAt
    rw [hget]
    cases index.entries.get? (Utf8.encode pathValue) <;> rfl
  · refine ⟨after, hafter, ?_⟩
    right
    refine ⟨hspared, .store fault, ?_⟩
    unfold lookup
    rw [hget]

def stored? (ids : IdSet) : Option Bytes :=
  if ids.isEmpty then none else some ids.encode

theorem stored?_eq_some_iff {ids : IdSet} {bytes : Bytes} :
    stored? ids = some bytes ↔ ids.isEmpty = false ∧ ids.encode = bytes := by
  unfold stored?
  cases ids.isEmpty <;> simp

/-- Writing a set leaves its stored form at the path-value and nothing when it is empty, or fails
and changes nothing. -/
theorem writeEntry_cases (index : Store) (pathValue : String) (ids : IdSet) :
    ∃ after, index.Follows after ∧
      (index.writeEntry pathValue ids = (.ok (), after) ∧
          (∀ key, after.entries.get? key =
            if Utf8.encode pathValue = key then stored? ids else index.entries.get? key) ∨
        ¬ index.Spared after ∧ (∃ error, index.writeEntry pathValue ids = (.error error, after)) ∧
          after.entries = index.entries) := by
  unfold writeEntry stored?
  cases ids.isEmpty with
  | true =>
    obtain ⟨after, hfollows, ⟨hremove, hentries⟩ | ⟨hspared, ⟨fault, hremove⟩, hentries⟩⟩ :=
      index.remove_cases (Utf8.encode pathValue)
    · refine ⟨after, hfollows, ?_⟩
      simp [hremove, Except.mapError, hentries]
    · refine ⟨after, hfollows, ?_⟩
      right
      exact ⟨hspared, ⟨.store fault, by simp [hremove, Except.mapError]⟩, hentries⟩
  | false =>
    obtain ⟨after, hfollows, ⟨hset, hentries⟩ | ⟨hspared, ⟨fault, hset⟩, hentries⟩⟩ :=
      index.set_cases (Utf8.encode pathValue) ids.encode
    · refine ⟨after, hfollows, ?_⟩
      simp [hset, Except.mapError, hentries]
    · refine ⟨after, hfollows, ?_⟩
      right
      exact ⟨hspared, ⟨.store fault, by simp [hset, Except.mapError]⟩, hentries⟩

/-- An entry that the change leaves as it is, is not written; a change that fails does nothing. -/
theorem updateEntry_cases (index : Store) (change : IdSet → IdSet) (pathValue : String) :
    ∃ after, index.Follows after ∧
      ((∃ ids, index.idsAt pathValue = .ok ids ∧
          index.updateEntry change pathValue = (.ok (change ids ≠ ids), after) ∧
          ∀ key, after.entries.get? key = if change ids ≠ ids ∧ Utf8.encode pathValue = key
            then stored? (change ids) else index.entries.get? key) ∨
        (∃ error, index.updateEntry change pathValue = (.error error, after)) ∧
          after.entries = index.entries ∧
          (index.Spared after → ∃ fault, index.idsAt pathValue = .error fault)) := by
  obtain ⟨looked, hlooked, hlookup | ⟨hspared, error, hlookup⟩⟩ := index.lookup_cases pathValue
  · unfold updateEntry
    rw [hlookup]
    cases hids : index.idsAt pathValue with
    | error fault =>
      refine ⟨looked, hlooked.toFollows, ?_⟩
      right
      exact ⟨⟨_, rfl⟩, hlooked.entries, fun _ ↦ ⟨fault, rfl⟩⟩
    | ok ids =>
      by_cases heq : change ids = ids
      · refine ⟨looked, hlooked.toFollows, ?_⟩
        left
        refine ⟨ids, rfl, ?_, ?_⟩
        · simp [heq, Except.mapError]
        · simp [heq, hlooked.entries]
      · obtain ⟨after, hfollows, ⟨hwrite, hentries⟩ | ⟨hspared, ⟨error, hwrite⟩, hentries⟩⟩ :=
          looked.writeEntry_cases pathValue (change ids)
        · refine ⟨after, hlooked.toFollows.trans hfollows, ?_⟩
          left
          refine ⟨ids, rfl, ?_, ?_⟩
          · simp [heq, hwrite, Except.mapError, Except.map]
          · simp [heq, hentries, hlooked.entries]
        · refine ⟨after, hlooked.toFollows.trans hfollows, ?_⟩
          right
          refine ⟨⟨error, ?_⟩, hentries.trans hlooked.entries, ?_⟩
          · simp [heq, hwrite, Except.mapError, Except.map]
          · intro h
            exact absurd (h.right hlooked.toFollows) hspared
  · refine ⟨looked, hlooked.toFollows, ?_⟩
    right
    refine ⟨⟨error, ?_⟩, hlooked.entries, ?_⟩
    · unfold updateEntry
      rw [hlookup]
    · intro h
      exact absurd h hspared

/-- At most these path-values have gained the id, and nothing else has happened to the entries. -/
structure Gains (id : String) (pathValues : List String) (before after : Store) : Prop where
  entry : ∀ key, after.entries.get? key = before.entries.get? key ∨
    ∃ pathValue ∈ pathValues, key = Utf8.encode pathValue ∧
      ∃ ids, before.idsAt pathValue = .ok ids ∧ id ∉ ids ∧
        after.entries.get? key = some (IdSet.encode (ids.insert id))
  follows : before.Follows after

/-- The entry of the path-value had the id before or has been written with it. -/
def Gained (id : String) (before after : Store) (pathValue : String) : Prop :=
  ∃ ids, before.idsAt pathValue = .ok ids ∧
    (id ∈ ids ∨ after.entries.get? (Utf8.encode pathValue) = some (IdSet.encode (ids.insert id)))

section gains

variable {id pathValue : String} {pathValues : List String} {first second third : Store}

theorem Unchanged.gains (h : first.Unchanged second) : Gains id pathValues first second :=
  ⟨fun _ ↦ .inl (by rw [h.entries]), h.toFollows⟩

theorem Gains.mono (h : Gains id pathValues first second) {others : List String}
    (hsub : ∀ other ∈ pathValues, other ∈ others) : Gains id others first second := by
  refine ⟨?_, h.follows⟩
  intro key
  rcases h.entry key with hsame | ⟨other, hother, hrest⟩
  · exact .inl hsame
  · exact .inr ⟨other, hsub other hother, hrest⟩

theorem Gains.get?_of_not_mem (h : Gains id pathValues first second)
    (hmem : pathValue ∉ pathValues) :
    second.entries.get? (Utf8.encode pathValue) = first.entries.get? (Utf8.encode pathValue) := by
  rcases h.entry (Utf8.encode pathValue) with hsame | ⟨other, hother, hkey, -⟩
  · exact hsame
  · exact absurd (Utf8.encode_injective hkey ▸ hother) hmem

theorem Gains.idsAt_of_not_mem (h : Gains id pathValues first second)
    (hmem : pathValue ∉ pathValues) : second.idsAt pathValue = first.idsAt pathValue :=
  idsAt_congr (h.get?_of_not_mem hmem)

/-- Gains at one path-value and then at others are gains at all of them. -/
theorem Gains.cons (h : Gains id [pathValue] first second) (h' : Gains id pathValues second third)
    (hmem : pathValue ∉ pathValues) : Gains id (pathValue :: pathValues) first third := by
  refine ⟨?_, h.follows.trans h'.follows⟩
  intro key
  rcases h'.entry key with hsame | ⟨other, hother, hkey, ids, hids, hnot, hget⟩
  · rw [hsame]
    exact (h.mono (by simp)).entry key
  · have hne : other ∉ [pathValue] := by
      intro heq
      exact hmem (List.mem_singleton.mp heq ▸ hother)
    rw [h.idsAt_of_not_mem hne] at hids
    exact .inr ⟨other, List.mem_cons_of_mem _ hother, hkey, ids, hids, hnot, hget⟩

end gains

/-- Putting an id into one entry succeeds, and the entry has it, or fails. -/
theorem mergeId_cases (index : Store) (id pathValue : String) :
    ∃ after, Gains id [pathValue] index after ∧
      ((∃ changed, mergeId id index pathValue = (.ok changed, after)) ∧
          Gained id index after pathValue ∨
        (∃ error, mergeId id index pathValue = (.error error, after)) ∧
          (index.Spared after → ∃ fault, index.idsAt pathValue = .error fault)) := by
  obtain ⟨after, hfollows, ⟨ids, hids, hmerge, hentries⟩ | ⟨herror, hentries, hcause⟩⟩ :=
    index.updateEntry_cases (·.insert id) pathValue
  · have hstored : stored? (ids.insert id) = some (IdSet.encode (ids.insert id)) :=
      stored?_eq_some_iff.mpr ⟨OrderedSet.isEmpty_insert ids id, rfl⟩
    simp only [hstored, ne_eq, OrderedSet.insert_eq_self_iff] at hentries
    have hgains : Gains id [pathValue] index after := by
      refine ⟨?_, hfollows⟩
      intro key
      rw [hentries]
      split
      · rename_i hnew
        exact .inr ⟨pathValue, List.mem_singleton_self _, hnew.2.symm, ids, hids, hnew.1, rfl⟩
      · exact .inl rfl
    have hgained : Gained id index after pathValue := by
      refine ⟨ids, hids, ?_⟩
      by_cases hmem : id ∈ ids
      · exact .inl hmem
      · exact .inr ((hentries _).trans (if_pos ⟨hmem, rfl⟩))
    exact ⟨after, hgains, .inl ⟨⟨_, hmerge⟩, hgained⟩⟩
  · have hunchanged : index.Unchanged after := ⟨hfollows, hentries⟩
    exact ⟨after, hunchanged.gains, .inr ⟨herror, hcause⟩⟩

/-- Putting an id into entries changes none but these, wherever it stops. -/
theorem updateEntries_mergeId_cases (index : Store) (id : String) {pathValues : List String}
    (hnodup : pathValues.Nodup) :
    ∃ after, Gains id pathValues index after ∧
      ((∃ count, index.updateEntries (mergeId id) pathValues = (.ok count, after)) ∧
          (∀ pathValue ∈ pathValues, Gained id index after pathValue) ∨
        (∃ error, index.updateEntries (mergeId id) pathValues = (.error error, after)) ∧
          (index.Spared after → index.HasBadEntry pathValues)) := by
  induction pathValues generalizing index with
  | nil => exact ⟨index, (Unchanged.refl index).gains, .inl ⟨⟨0, rfl⟩, nofun⟩⟩
  | cons pathValue rest ih =>
    obtain ⟨hnot, hrest⟩ := List.nodup_cons.mp hnodup
    obtain ⟨merged, hgains, ⟨⟨changed, hmerge⟩, hgained⟩ | ⟨⟨error, hmerge⟩, hcause⟩⟩ :=
      index.mergeId_cases id pathValue
    · obtain ⟨after, hgains', houtcome⟩ := ih merged hrest
      have hcons := hgains.cons hgains' hnot
      -- The first step has not touched the entries of the remaining path-values.
      have hlater : ∀ other ∈ rest, merged.idsAt other = index.idsAt other := by
        intro other hother
        apply hgains.idsAt_of_not_mem
        intro heq
        exact hnot (List.mem_singleton.mp heq ▸ hother)
      rw [updateEntries, hmerge]
      dsimp only
      rcases houtcome with ⟨⟨count, hupdate⟩, hall⟩ | ⟨⟨error, hupdate⟩, hcause⟩
      · refine ⟨after, hcons, ?_⟩
        left
        refine ⟨⟨_, by rw [hupdate]; rfl⟩, ?_⟩
        intro other hother
        rcases List.mem_cons.mp hother with rfl | hother
        · rw [Gained, hgains'.get?_of_not_mem hnot]
          exact hgained
        · obtain ⟨ids, hids, hor⟩ := hall other hother
          exact ⟨ids, hlater other hother ▸ hids, hor⟩
      · refine ⟨after, hcons, ?_⟩
        right
        refine ⟨⟨_, by rw [hupdate]; rfl⟩, ?_⟩
        intro hspared
        obtain ⟨other, hother, fault, hfault⟩ := hcause (hspared.right hgains.follows)
        exact ⟨other, List.mem_cons_of_mem _ hother, fault, hlater other hother ▸ hfault⟩
    · have hfirst : Gains id (pathValue :: rest) index merged :=
        hgains.mono (by simp)
      refine ⟨merged, hfirst, ?_⟩
      right
      refine ⟨⟨error, ?_⟩, ?_⟩
      · rw [updateEntries, hmerge]
      · intro hspared
        obtain ⟨fault, hfault⟩ := hcause hspared
        exact ⟨pathValue, List.mem_cons_self, fault, hfault⟩

/-- A document that has been put in stands under all its path-values; one that has not been put in
completely stands under some of them. -/
theorem addToIndex_cases (index : Store) (id : String) (document : Document) :
    ∃ after, Gains id document.pathValues.toList index after ∧
      ((∃ count, index.addToIndex id document = (.ok count, after)) ∧
          (∀ pathValue ∈ document.pathValues, Gained id index after pathValue) ∨
        (∃ error, index.addToIndex id document = (.error error, after)) ∧
          (index.Spared after → index.HasBadEntry document.pathValues.toList)) :=
  index.updateEntries_mergeId_cases id document.pathValues.nodup

section sets

variable {id pathValue : String} {pathValues : List String} {before after : Store}

/-- With the id, the sets of these path-values still fit. -/
def FitsWith (index : Store) (id : String) (pathValues : List String) : Prop :=
  ∀ pathValue ∈ pathValues, ∀ ids, index.idsAt pathValue = .ok ids → IdSet.Fits (ids.insert id)

/-- The set of a path-value has stayed or has gained the id. -/
theorem Gains.idsAt_cases (h : Gains id pathValues before after)
    (hfits : before.FitsWith id pathValues) (pathValue : String) :
    after.idsAt pathValue = before.idsAt pathValue ∨
      pathValue ∈ pathValues ∧ ∃ ids, before.idsAt pathValue = .ok ids ∧
        after.idsAt pathValue = .ok (ids.insert id) := by
  rcases h.entry (Utf8.encode pathValue) with hsame | ⟨other, hother, hkey, ids, hids, -, hget⟩
  · exact .inl (idsAt_congr hsame)
  · obtain rfl := Utf8.encode_injective hkey
    exact .inr ⟨hother, ids, hids, idsAt_of_get? (hfits _ hother ids hids) hget⟩

/-- The set of a path-value that has gained the id holds the old ids and the new one. -/
theorem Gained.idsAt_eq (hgained : Gained id before after pathValue)
    (h : Gains id pathValues before after) (hfits : before.FitsWith id pathValues)
    (hmem : pathValue ∈ pathValues) :
    ∃ ids, before.idsAt pathValue = .ok ids ∧ after.idsAt pathValue = .ok (ids.insert id) := by
  obtain ⟨ids, hids, hin | hget⟩ := hgained
  · refine ⟨ids, hids, ?_⟩
    rcases h.idsAt_cases hfits pathValue with hsame | ⟨-, ids', hids', hafter⟩
    · rw [hsame, hids, OrderedSet.insert_eq_self_iff.mpr hin]
    · obtain rfl := Except.ok.inj (hids.symm.trans hids')
      exact hafter
  · exact ⟨ids, hids, idsAt_of_get? (hfits _ hmem ids hids) hget⟩

end sets

end PathStore.Store
