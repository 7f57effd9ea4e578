import PathStore.Proofs.Index.Entries
import PathStore.Proofs.Storage.Documents
import PathStore.Search.Strategies

/-!
# Laws of the two ways to search

Both ways end in a list of hits in ascending order of the ids, so a list of hits is determined by
which documents are on it.  Each call is described by that, by when it fails, and by the stores
being left unchanged.
-/

namespace PathStore

/-- The hits are the documents with the property, in ascending order of their ids. -/
structure IsHitList (hits : List SearchHit) (P : String → Document → Prop) : Prop where
  ascending : hits.Pairwise (·.id < ·.id)
  mem_iff : ∀ hit, hit ∈ hits ↔ P hit.id hit.body

namespace IsHitList

variable {hits others : List SearchHit} {P Q : String → Document → Prop}

theorem congr (h : IsHitList hits P) (hiff : ∀ id body, P id body ↔ Q id body) :
    IsHitList hits Q :=
  ⟨h.ascending, fun hit ↦ (h.mem_iff hit).trans (hiff hit.id hit.body)⟩

theorem nodup_ids (h : IsHitList hits P) : (hits.map (·.id)).Nodup := by
  apply List.pairwise_map.mpr
  apply h.ascending.imp
  intro a b hlt heq
  rw [heq] at hlt
  exact String.lt_irrefl b.id hlt

/-- There is one list of hits, since ids have an order. -/
theorem unique (h : IsHitList hits P) (h' : IsHitList others P) : hits = others := by
  apply eq_of_ascending SearchHit.id h.ascending h'.ascending
  intro hit
  rw [h.mem_iff, h'.mem_iff]

end IsHitList

def countOf (counts : OrderedMap String Nat) (id : String) : Nat :=
  (counts.get? id).getD 0

theorem countOf_countOne (counts : OrderedMap String Nat) (id other : String) :
    countOf (countOne counts other) id = countOf counts id + if other = id then 1 else 0 := by
  unfold countOf countOne
  rw [OrderedMap.get?_insert]
  split
  · rename_i heq
    rw [heq]
    rfl
  · rfl

theorem countOf_foldl_countOne (ids : List String) (counts : OrderedMap String Nat) (id : String) :
    countOf (ids.foldl countOne counts) id = countOf counts id + ids.count id := by
  induction ids generalizing counts with
  | nil => rfl
  | cons other rest ih =>
    rw [List.foldl_cons, ih, countOf_countOne, List.count_cons, beq_eq_decide]
    simp only [decide_eq_true_eq]
    omega

/-- An id is counted once for each set that has it. -/
theorem countOf_countIds (sets : List IdSet) (id : String) :
    countOf (countIds sets) id = sets.countP (·.contains id) := by
  have hcounts (counts : OrderedMap String Nat) :
      countOf (sets.foldl (fun counts ids ↦ ids.toList.foldl countOne counts) counts) id =
        countOf counts id + sets.countP (·.contains id) := by
    induction sets generalizing counts with
    | nil => rfl
    | cons ids rest ih =>
      have hcount : ids.toList.count id = if ids.contains id then 1 else 0 := by
        rw [ids.nodup.count]
        simp
      rw [List.foldl_cons, ih, countOf_foldl_countOne, hcount, List.countP_cons]
      omega
  calc
    countOf (countIds sets) id = countOf .empty id + sets.countP (·.contains id) := hcounts .empty
    _ = sets.countP (·.contains id) := Nat.zero_add _

theorem pairwise_commonIds (sets : List IdSet) : (commonIds sets).Pairwise (· < ·) :=
  List.pairwise_map.mpr ((countIds sets).ascending.filter _)

/-- The ids counted as often as there are sets are those that all sets have. -/
theorem mem_commonIds {sets : List IdSet} {id : String} :
    id ∈ commonIds sets ↔ sets ≠ [] ∧ ∀ ids ∈ sets, id ∈ ids := by
  calc
    id ∈ commonIds sets ↔ (countIds sets).get? id = some sets.length := by
      simp [commonIds, ← OrderedMap.mem_entries_iff]
    _ ↔ sets ≠ [] ∧ countOf (countIds sets) id = sets.length := by
      unfold countOf
      cases sets with
      | nil => simp [countIds]
      | cons ids rest => cases (countIds (ids :: rest)).get? id <;> simp
    _ ↔ sets ≠ [] ∧ ∀ ids ∈ sets, id ∈ ids := by
      rw [countOf_countIds]
      simp [List.countP_eq_length]

namespace Store

/-- All sets are read, or one of them cannot be. -/
theorem lookupAll_cases (index : Store) (pathValues : List String) :
    ∃ after, index.Unchanged after ∧
      ((∃ sets, index.lookupAll pathValues = (.ok sets, after) ∧
          pathValues.map index.idsAt = sets.map .ok) ∨
        (∃ error, index.lookupAll pathValues = (.error error, after)) ∧
          (index.Spared after → index.HasBadEntry pathValues)) := by
  induction pathValues generalizing index with
  | nil => exact ⟨index, .refl index, .inl ⟨[], rfl, rfl⟩⟩
  | cons pathValue rest ih =>
    obtain ⟨looked, hlooked, hlookup | ⟨hspared, error, hlookup⟩⟩ := index.lookup_cases pathValue
    · cases hids : index.idsAt pathValue with
      | error fault =>
        have hbad : index.HasBadEntry (pathValue :: rest) :=
          ⟨pathValue, List.mem_cons_self, fault, hids⟩
        refine ⟨looked, hlooked, ?_⟩
        right
        refine ⟨⟨.idSet fault, ?_⟩, fun _ ↦ hbad⟩
        rw [lookupAll, hlookup, hids]
        rfl
      | ok ids =>
        obtain ⟨after, hafter, ⟨sets, hrest, hsets⟩ | ⟨⟨error, hrest⟩, hcause⟩⟩ := ih looked
        · refine ⟨after, hlooked.trans hafter, ?_⟩
          left
          refine ⟨ids :: sets, ?_, ?_⟩
          · rw [lookupAll, hlookup, hids]
            simp [Except.mapError, hrest, Except.map]
          · have hsame : rest.map index.idsAt = rest.map looked.idsAt := by
              apply List.map_congr_left
              intro other _
              exact (hlooked.idsAt_eq other).symm
            rw [List.map_cons, List.map_cons, hids, hsame, hsets]
        · refine ⟨after, hlooked.trans hafter, ?_⟩
          right
          refine ⟨⟨error, ?_⟩, ?_⟩
          · rw [lookupAll, hlookup, hids]
            simp [Except.mapError, hrest, Except.map]
          · intro hspared
            obtain ⟨other, hother, fault, hfault⟩ := hcause (hspared.right hlooked.toFollows)
            exact ⟨other, List.mem_cons_of_mem _ hother, fault, hlooked.idsAt_eq other ▸ hfault⟩
    · refine ⟨looked, hlooked, ?_⟩
      right
      refine ⟨⟨error, ?_⟩, ?_⟩
      · rw [lookupAll, hlookup]
      · intro h
        exact absurd h hspared

section entries

variable {index : Store} {pathValues : List String} {sets : List IdSet}

theorem idsAt_of_map_idsAt (h : pathValues.map index.idsAt = sets.map .ok) {pathValue : String}
    (hmem : pathValue ∈ pathValues) : ∃ ids ∈ sets, index.idsAt pathValue = .ok ids := by
  have hread := List.mem_map_of_mem (f := index.idsAt) hmem
  rw [h] at hread
  obtain ⟨ids, hids, heq⟩ := List.mem_map.mp hread
  exact ⟨ids, hids, heq.symm⟩

theorem not_hasBadEntry_of_map_idsAt (h : pathValues.map index.idsAt = sets.map .ok) :
    ¬ index.HasBadEntry pathValues := by
  apply not_hasBadEntry_of_readable
  intro pathValue hmem
  obtain ⟨ids, -, hids⟩ := idsAt_of_map_idsAt h hmem
  exact ⟨ids, hids⟩

/-- The common ids are those that all entries name. -/
theorem mem_commonIds_iff_names (h : pathValues.map index.idsAt = sets.map .ok)
    (hne : pathValues ≠ []) {id : String} : id ∈ commonIds sets ↔ index.Names pathValues id := by
  have hsets : sets ≠ [] := by
    rintro rfl
    exact hne (List.map_eq_nil_iff.mp h)
  rw [mem_commonIds]
  constructor
  · intro hcommon pathValue hmem
    obtain ⟨ids, hids, hread⟩ := idsAt_of_map_idsAt h hmem
    exact ⟨ids, hread, hcommon.2 ids hids⟩
  · intro hnames
    apply And.intro hsets
    intro ids hids
    have hread := List.mem_map_of_mem (f := @Except.ok IdSetFault IdSet) hids
    rw [← h] at hread
    obtain ⟨pathValue, hmem, heq⟩ := List.mem_map.mp hread
    obtain ⟨others, hothers, hid⟩ := hnames pathValue hmem
    exact Except.ok.inj (hothers.symm.trans heq) ▸ hid

end entries

/-- The hit that an id stands for. -/
def hitAt? (keep : Document → Bool) (documents : Store) (id : String) : Option SearchHit :=
  match documents.documentAt id with
  | .ok body => if keep body then some ⟨id, body⟩ else none
  | .error _ => none

/-- What is fetched under an id is its document, if it is to be kept. -/
theorem hitAt?_eq_some_iff {keep : Document → Bool} {documents : Store} {id : String}
    {hit : SearchHit} : documents.hitAt? keep id = some hit ↔
      hit.id = id ∧ documents.Holds id hit.body ∧ keep hit.body := by
  rcases hit with ⟨other, body⟩
  rw [← documentAt_eq_ok_iff]
  unfold hitAt?
  cases documents.documentAt id with
  | error error => simp
  | ok found => grind

theorem Unchanged.hitAt?_eq {before after : Store} (h : before.Unchanged after)
    (keep : Document → Bool) (id : String) : after.hitAt? keep id = before.hitAt? keep id := by
  unfold hitAt?
  rw [h.documentAt_eq]

/-- All documents are fetched, or one of them cannot be read. -/
theorem fetch_cases (keep : Document → Bool) (documents : Store) (ids : List String) :
    ∃ after, documents.Unchanged after ∧
      (documents.fetch keep ids = (.ok (ids.filterMap (documents.hitAt? keep)), after) ∧
          (∀ id ∈ ids, ¬ documents.Unreadable id) ∨
        (∃ error, documents.fetch keep ids = (.error error, after)) ∧
          (documents.Spared after → ∃ id ∈ ids, documents.Unreadable id)) := by
  induction ids generalizing documents with
  | nil => exact ⟨documents, .refl documents, .inl ⟨rfl, nofun⟩⟩
  | cons id rest ih =>
    obtain ⟨looked, hlooked, hget | ⟨hspared, fault, hget⟩⟩ := documents.getDocument_cases id
    · obtain ⟨after, hafter, hrest⟩ := ih looked
      -- The remaining ids stand for the same hits and are as readable as before this call.
      have hhits : rest.filterMap (looked.hitAt? keep) = rest.filterMap (documents.hitAt? keep) := by
        congr 1
        funext other
        exact hlooked.hitAt?_eq keep other
      simp only [hhits, hlooked.unreadable_iff] at hrest
      have hcause (h : looked.Spared after → ∃ other ∈ rest, documents.Unreadable other)
          (hspared : documents.Spared after) :
          ∃ other ∈ id :: rest, documents.Unreadable other := by
        obtain ⟨other, hother, hbad⟩ := h (hspared.right hlooked.toFollows)
        exact ⟨other, List.mem_cons_of_mem _ hother, hbad⟩
      rw [fetch, hget]
      rcases documents.documentAt_cases id with
        ⟨body, hbody, hread⟩ | ⟨hbody, hread⟩ | ⟨fault, hbody, hbad⟩
      · rw [List.filterMap_cons, hitAt?, hbody]
        dsimp only
        rcases hrest with ⟨hfetch, hall⟩ | ⟨⟨error, hfetch⟩, hbad⟩
        · refine ⟨after, hlooked.trans hafter, ?_⟩
          left
          refine ⟨?_, List.forall_mem_cons.mpr ⟨hread, hall⟩⟩
          rw [hfetch]
          cases keep body <;> rfl
        · refine ⟨after, hlooked.trans hafter, ?_⟩
          right
          refine ⟨⟨error, ?_⟩, hcause hbad⟩
          rw [hfetch]
          rfl
      · rw [List.filterMap_cons, hitAt?, hbody]
        dsimp only
        rcases hrest with ⟨hfetch, hall⟩ | ⟨herror, hbad⟩
        · refine ⟨after, hlooked.trans hafter, ?_⟩
          left
          exact ⟨hfetch, List.forall_mem_cons.mpr ⟨hread, hall⟩⟩
        · exact ⟨after, hlooked.trans hafter, .inr ⟨herror, hcause hbad⟩⟩
      · rw [hbody]
        refine ⟨looked, hlooked, ?_⟩
        right
        exact ⟨⟨.json fault, rfl⟩, fun _ ↦ ⟨id, List.mem_cons_self, hbad⟩⟩
    · refine ⟨looked, hlooked, ?_⟩
      right
      refine ⟨⟨.store fault, ?_⟩, ?_⟩
      · rw [fetch, hget]
      · intro h
        exact absurd h hspared

/-- What is fetched under ascending ids is a list of hits. -/
theorem isHitList_filterMap_hitAt? (keep : Document → Bool) (documents : Store)
    {ids : List String} (hids : ids.Pairwise (· < ·)) :
    IsHitList (ids.filterMap (documents.hitAt? keep)) fun id body ↦
      id ∈ ids ∧ documents.Holds id body ∧ keep body := by
  constructor
  · apply hids.filterMap
    intro a b hlt x hx y hy
    rwa [(hitAt?_eq_some_iff.mp hx).1, (hitAt?_eq_some_iff.mp hy).1]
  · intro hit
    simp only [List.mem_filterMap, hitAt?_eq_some_iff]
    constructor
    · intro h
      rcases h with ⟨id, hid, rfl, hrest⟩
      exact ⟨hid, hrest⟩
    · intro h
      rcases h with ⟨hid, hrest⟩
      exact ⟨hit.id, hid, rfl, hrest⟩

theorem hit?_eq_some_iff {keep : Document → Bool} {stored : StoredDocument} {hit : SearchHit} :
    hit? keep stored = .ok (some hit) ↔
      stored.id = hit.id ∧ stored.document = .ok hit.body ∧ keep hit.body := by
  rcases hit with ⟨id, body⟩
  unfold hit?
  cases stored.document with
  | error error => simp [Except.map]
  | ok found => grind [Except.map]

theorem error_mem_map_hit?_iff {keep : Document → Bool} {documents : Store} :
    (∃ error, .error error ∈ documents.storedDocuments.map (· >>= hit? keep)) ↔
      documents.MeetsError := by
  have hiff (stored : Except Error StoredDocument) (error : Error) :
      stored >>= hit? keep = .error error ↔ stored >>= StoredDocument.document = .error error := by
    cases stored with
    | error fault => simp [bind, Except.bind]
    | ok stored =>
      change hit? keep stored = .error error ↔ stored.document = .error error
      unfold hit?
      cases stored.document <;> simp [Except.map]
  simp only [List.mem_map, hiff, MeetsError]
  constructor
  · intro h
    rcases h with ⟨error, stored, hmem, herror⟩
    exact ⟨stored, hmem, error, herror⟩
  · intro h
    rcases h with ⟨stored, hmem, error, herror⟩
    exact ⟨error, stored, hmem, herror⟩

/-- A scan without an error has found the documents that it looks for. -/
theorem isHitList_filterMap {keep : Document → Bool} {documents : Store}
    {found : List (Option SearchHit)}
    (h : documents.storedDocuments.map (· >>= hit? keep) = found.map .ok) :
    IsHitList (found.filterMap id) fun id body ↦ documents.Holds id body ∧ keep body := by
  have hnone (error : Error) : .error error ∉ documents.storedDocuments := by
    intro hmem
    have hmapped := List.mem_map_of_mem (f := (· >>= hit? keep)) hmem
    rw [h] at hmapped
    obtain ⟨_, -, hcontra⟩ := List.mem_map.mp hmapped
    cases hcontra
  constructor
  · have hpairs : (documents.storedDocuments.map (· >>= hit? keep)).Pairwise fun x y ↦
        ∀ a b, x = .ok (some a) → y = .ok (some b) → a.id < b.id := by
      apply List.pairwise_map.mpr
      apply documents.pairwise_storedDocuments.imp
      intro x y hlt a b ha hb
      cases x with
      | error => cases ha
      | ok first =>
        cases y with
        | error => cases hb
        | ok second =>
          rw [← (hit?_eq_some_iff.mp ha).1, ← (hit?_eq_some_iff.mp hb).1]
          exact hlt first second rfl rfl
    rw [h, List.pairwise_map] at hpairs
    apply List.pairwise_filterMap.mpr
    apply hpairs.imp
    intro x y hlt a ha b hb
    exact hlt a b (congrArg _ ha) (congrArg _ hb)
  · intro hit
    calc
      hit ∈ found.filterMap id ↔ .ok (some hit) ∈ found.map (@Except.ok Error _) := by simp
      _ ↔ ∃ stored, .ok stored ∈ documents.storedDocuments ∧ hit? keep stored = .ok (some hit) := by
        rw [← h, List.mem_map]
        constructor
        · intro h
          rcases h with ⟨stored | stored, hmem, hhit⟩
          · cases hhit
          · exact ⟨stored, hmem, hhit⟩
        · intro h
          rcases h with ⟨stored, hmem, hhit⟩
          exact ⟨_, hmem, hhit⟩
      _ ↔ documents.Holds hit.id hit.body ∧ keep hit.body := by
        simp only [hit?_eq_some_iff]
        constructor
        · intro h
          rcases h with ⟨stored, hmem, hid, hbody, hkeep⟩
          exact ⟨⟨stored.body, hid ▸ get?_of_mem_storedDocuments hmem, hbody⟩, hkeep⟩
        · intro h
          rcases h with ⟨⟨body, hget, hbody⟩, hkeep⟩
          rcases mem_storedDocuments_or_error hget with hmem | ⟨error, herror⟩
          · exact ⟨_, hmem, rfl, hbody, hkeep⟩
          · exact absurd herror (hnone error)

/-- A scan gives all documents that are to be kept, or meets an error. -/
theorem scanFor_cases (keep : Document → Bool) (documents : Store) :
    ∃ after, documents.Unchanged after ∧
      ((∃ hits, documents.scanFor keep = (.ok hits, after) ∧
          IsHitList hits fun id body ↦ documents.Holds id body ∧ keep body) ∧
          ¬ documents.MeetsError ∨
        (∃ error, documents.scanFor keep = (.error error, after)) ∧ documents.MeetsError) := by
  refine ⟨(documents.scanFor keep).2, documents.unchanged_scanned _, ?_⟩
  have herror : (∃ error, (gather (documents.storedDocuments.map (· >>= hit? keep))).1 =
      .error error) ↔ documents.MeetsError := gather_eq_error_iff.trans error_mem_map_hit?_iff
  unfold scanFor
  cases hgather : (gather (documents.storedDocuments.map (· >>= hit? keep))).1 with
  | error error => exact .inr ⟨⟨error, by simp [hgather, Except.map]⟩, herror.mp ⟨error, hgather⟩⟩
  | ok found =>
    have hfound := isHitList_filterMap (gather_eq_ok_iff.mp hgather)
    refine .inl ⟨⟨_, by simp [hgather, Except.map], hfound⟩, ?_⟩
    intro hmeets
    obtain ⟨error, hcontra⟩ := herror.mpr hmeets
    cases hgather.symm.trans hcontra

end Store

end PathStore
