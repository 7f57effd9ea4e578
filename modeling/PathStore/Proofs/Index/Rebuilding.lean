import PathStore.Index.Rebuilding
import PathStore.Proofs.Index.Entries
import PathStore.Proofs.Storage.Documents

/-!
# Laws of rebuilding

Adding to the index is bounded from above and from below.  Entries that name only ids allowed at
their path-values go on to do so as long as only allowed ids are added, at whichever call a pass
stops; and no entry ever loses an id.  A pass that comes to its end has put every document whose
body can be read under all its path-values.
-/

namespace PathStore.Store

/-- Every entry can be read and names only ids allowed at its path-value. -/
def Within (index : Store) (allowed : String → List String) : Prop :=
  ∀ pathValue, ∃ ids, index.idsAt pathValue = .ok ids ∧ ∀ id ∈ ids, id ∈ allowed pathValue

/-- Sets of allowed ids fit. -/
structure Bounded (allowed : String → List String) : Prop where
  size : ∀ pathValue, (allowed pathValue).length < 2 ^ 64
  length : ∀ pathValue, ∀ id ∈ allowed pathValue, (Utf8.encode id).length < 2 ^ 64

/-- Entries that could be read still can, and have lost no id. -/
def Grows (before after : Store) : Prop :=
  ∀ pathValue ids, before.idsAt pathValue = .ok ids →
    ∃ others, after.idsAt pathValue = .ok others ∧ ∀ id ∈ ids, id ∈ others

/-- What adding allowed ids does to the index. -/
structure Extends (allowed : String → List String) (before after : Store) : Prop where
  within : after.Within allowed
  grows : before.Grows after
  follows : before.Follows after

theorem Grows.refl (store : Store) : store.Grows store := by
  intro _ ids hids
  exact ⟨ids, hids, fun _ ↦ id⟩

section bounds

variable {allowed : String → List String} {id : String} {pathValues : List String}
  {first second third : Store}

theorem Within.not_hasBadEntry (h : first.Within allowed) : ¬ first.HasBadEntry pathValues := by
  apply not_hasBadEntry_of_readable
  intro pathValue _
  obtain ⟨ids, hids, -⟩ := h pathValue
  exact ⟨ids, hids⟩

theorem Unchanged.within (h : first.Unchanged second) (hwithin : first.Within allowed) :
    second.Within allowed := by
  intro pathValue
  rw [h.idsAt_eq pathValue]
  exact hwithin pathValue

/-- More ids may be allowed. -/
theorem Within.mono {others : String → List String} (h : first.Within allowed)
    (hsub : ∀ pathValue, ∀ id ∈ allowed pathValue, id ∈ others pathValue) :
    first.Within others := by
  intro pathValue
  obtain ⟨ids, hids, hall⟩ := h pathValue
  exact ⟨ids, hids, fun id hid ↦ hsub pathValue id (hall id hid)⟩

/-- A set of allowed ids fits. -/
theorem Bounded.fits (h : Bounded allowed) {pathValue : String} {ids : IdSet}
    (hids : ∀ id ∈ ids, id ∈ allowed pathValue) : ids.Fits := by
  constructor
  · exact Nat.lt_of_le_of_lt (OrderedSet.size_le_of_subset hids) (h.size pathValue)
  · intro id hid
    exact h.length pathValue id (hids id hid)

theorem Unchanged.extends (h : first.Unchanged second) (hwithin : first.Within allowed) :
    Extends allowed first second := by
  refine ⟨h.within hwithin, ?_, h.toFollows⟩
  intro pathValue ids hids
  exact ⟨ids, (h.idsAt_eq pathValue).trans hids, fun _ ↦ id⟩

theorem Within.refl (h : first.Within allowed) : Extends allowed first first :=
  (Unchanged.refl first).extends h

/-- Extensions compose. -/
theorem Extends.trans (h : Extends allowed first second) (h' : Extends allowed second third) :
    Extends allowed first third := by
  refine ⟨h'.within, ?_, h.follows.trans h'.follows⟩
  intro pathValue ids hids
  obtain ⟨others, hothers, hsub⟩ := h.grows pathValue ids hids
  obtain ⟨more, hmore, hsub'⟩ := h'.grows pathValue others hothers
  exact ⟨more, hmore, fun id hid ↦ hsub' id (hsub id hid)⟩

/-- An index that has grown names what it named before. -/
theorem Grows.names (h : first.Grows second) (hnames : first.Names pathValues id) :
    second.Names pathValues id := by
  intro pathValue hmem
  obtain ⟨ids, hids, hid⟩ := hnames pathValue hmem
  obtain ⟨others, hothers, hsub⟩ := h pathValue ids hids
  exact ⟨others, hothers, hsub id hid⟩

theorem Within.insert_within (h : first.Within allowed)
    (hid : ∀ pathValue ∈ pathValues, id ∈ allowed pathValue) {pathValue : String}
    (hmem : pathValue ∈ pathValues) {ids : IdSet} (hids : first.idsAt pathValue = .ok ids) :
    ∀ other ∈ ids.insert id, other ∈ allowed pathValue := by
  intro other hother
  obtain ⟨ids', hids', hall⟩ := h pathValue
  obtain rfl := Except.ok.inj (hids.symm.trans hids')
  rcases OrderedSet.mem_insert.mp hother with rfl | hold
  · exact hid pathValue hmem
  · exact hall other hold

theorem Within.fitsWith (h : first.Within allowed) (hbounded : Bounded allowed)
    (hid : ∀ pathValue ∈ pathValues, id ∈ allowed pathValue) : first.FitsWith id pathValues := by
  intro pathValue hmem ids hids
  exact hbounded.fits (h.insert_within hid hmem hids)

/-- Gains of an allowed id extend the index. -/
theorem Gains.extends (hgains : Gains id pathValues first second) (h : first.Within allowed)
    (hbounded : Bounded allowed) (hid : ∀ pathValue ∈ pathValues, id ∈ allowed pathValue) :
    Extends allowed first second := by
  have hcases := hgains.idsAt_cases (h.fitsWith hbounded hid)
  refine ⟨?_, ?_, hgains.follows⟩
  · intro pathValue
    rcases hcases pathValue with hsame | ⟨hmem, ids, hids, hafter⟩
    · exact hsame ▸ h pathValue
    · exact ⟨_, hafter, h.insert_within hid hmem hids⟩
  · intro pathValue ids hids
    rcases hcases pathValue with hsame | ⟨hmem, ids', hids', hafter⟩
    · exact ⟨ids, hsame.trans hids, fun _ hold ↦ hold⟩
    · obtain rfl := Except.ok.inj (hids.symm.trans hids')
      exact ⟨_, hafter, fun _ hold ↦ OrderedSet.mem_insert.mpr (.inr hold)⟩

/-- Adding a document under an allowed id succeeds unless the store fails. -/
theorem Within.addToIndex_cases (h : first.Within allowed) (hbounded : Bounded allowed)
    (id : String) {document : Document}
    (hid : ∀ pathValue ∈ document.pathValues, id ∈ allowed pathValue) :
    ∃ after, Extends allowed first after ∧
      ((∃ count, first.addToIndex id document = (.ok count, after)) ∧
          after.Names document.pathValues.toList id ∨
        (∃ error, first.addToIndex id document = (.error error, after)) ∧
          ¬ first.Spared after) := by
  obtain ⟨after, hgains, ⟨hadd, hgained⟩ | ⟨hadd, hcause⟩⟩ := first.addToIndex_cases id document
  · refine ⟨after, hgains.extends h hbounded hid, ?_⟩
    left
    refine ⟨hadd, ?_⟩
    intro pathValue hmem
    obtain ⟨ids, -, hafter⟩ :=
      (hgained pathValue hmem).idsAt_eq hgains (h.fitsWith hbounded hid) hmem
    exact ⟨_, hafter, OrderedSet.mem_insert.mpr (.inl rfl)⟩
  · refine ⟨after, hgains.extends h hbounded hid, ?_⟩
    right
    refine ⟨hadd, ?_⟩
    intro hspared
    exact h.not_hasBadEntry (hcause hspared)

end bounds

/-- One of the results is this document, under this id. -/
def Shows (results : List (Except Error StoredDocument)) (id : String) (document : Document) :
    Prop :=
  ∃ body, .ok ⟨id, body⟩ ∈ results ∧ decodeBody body = .ok document

theorem shows_cons_iff {stored : StoredDocument} {rest : List (Except Error StoredDocument)}
    {id : String} {document : Document} :
    Shows (.ok stored :: rest) id document ↔
      stored.id = id ∧ stored.document = .ok document ∨ Shows rest id document := by
  simp only [Shows, List.mem_cons, Except.ok.injEq, or_and_right, exists_or]
  refine or_congr_left ⟨?_, ?_⟩
  · intro h
    rcases h with ⟨body, rfl, hbody⟩
    exact ⟨rfl, hbody⟩
  · intro h
    rcases h with ⟨rfl, hbody⟩
    exact ⟨stored.body, rfl, hbody⟩

def AllowsAll (allowed : String → List String) (results : List (Except Error StoredDocument)) :
    Prop :=
  ∀ id document, Shows results id document →
    ∀ pathValue ∈ document.pathValues, id ∈ allowed pathValue

/-- The documents stand under all their path-values. -/
def NamesAll (index : Store) (results : List (Except Error StoredDocument)) : Prop :=
  ∀ id document, Shows results id document → index.Names document.pathValues.toList id

section namesAll

variable {index : Store} {stored : StoredDocument} {document : Document}
  {rest : List (Except Error StoredDocument)}

theorem NamesAll.cons_of_error {error : Error} (hdocument : stored.document = .error error)
    (hall : index.NamesAll rest) : index.NamesAll (.ok stored :: rest) := by
  intro id document hshows
  rcases shows_cons_iff.mp hshows with ⟨-, hcontra⟩ | hrest
  · cases hdocument.symm.trans hcontra
  · exact hall id document hrest

theorem NamesAll.cons_of_ok (hdocument : stored.document = .ok document)
    (hnames : index.Names document.pathValues.toList stored.id) (hall : index.NamesAll rest) :
    index.NamesAll (.ok stored :: rest) := by
  intro id other hshows
  rcases shows_cons_iff.mp hshows with ⟨rfl, hother⟩ | hrest
  · obtain rfl := Except.ok.inj (hdocument.symm.trans hother)
    exact hnames
  · exact hall id other hrest

end namesAll

/-- A pass adds allowed ids only.  If it comes to its end, every document has been added. -/
theorem Within.reindexFrom_cases {index : Store} {allowed : String → List String}
    (h : index.Within allowed) (hbounded : Bounded allowed)
    {results : List (Except Error StoredDocument)} (hallows : AllowsAll allowed results)
    (report : ReindexReport) :
    ∃ result after looked, index.reindexFrom report results = (result, after, looked) ∧
      Extends allowed index after ∧
      ((∃ report, result = .ok report) ∧ (∀ error, .error error ∉ results) ∧
          after.NamesAll results ∨
        (∃ error, result = .error error) ∧
          (index.Spared after → ∃ error, .error error ∈ results)) := by
  induction results generalizing index report with
  | nil => exact ⟨_, index, 1, rfl, h.refl, .inl ⟨⟨report, rfl⟩, nofun, nofun⟩⟩
  | cons result rest ih =>
    cases result with
    | error error =>
      refine ⟨_, index, 1, rfl, h.refl, ?_⟩
      right
      exact ⟨⟨error, rfl⟩, fun _ ↦ ⟨error, List.mem_cons_self⟩⟩
    | ok stored =>
      have hrest : AllowsAll allowed rest := by
        intro id document hshows
        exact hallows id document (shows_cons_iff.mpr (.inr hshows))
      have herror (error : Error) : .error error ∈ .ok stored :: rest ↔ .error error ∈ rest := by
        simp
      simp only [herror]
      rw [reindexFrom]
      cases hdocument : stored.document with
      | error error =>
        obtain ⟨result, after, looked, heq, hextends, houtcome⟩ :=
          ih h hrest { report with skipped := report.skipped + 1 }
        refine ⟨result, after, looked + 1, by simp only [heq], hextends, ?_⟩
        rcases houtcome with ⟨hok, hnone, hall⟩ | hfailed
        · exact .inl ⟨hok, hnone, hall.cons_of_error hdocument⟩
        · exact .inr hfailed
      | ok document =>
        have hid := hallows stored.id document (shows_cons_iff.mpr (.inl ⟨rfl, hdocument⟩))
        obtain ⟨added, hadded, ⟨⟨count, hadd⟩, hnames⟩ | ⟨⟨error, hadd⟩, hspared⟩⟩ :=
          h.addToIndex_cases hbounded stored.id hid
        · obtain ⟨result, after, looked, heq, hextends, houtcome⟩ :=
            ih hadded.within hrest { report with indexed := report.indexed + 1 }
          refine ⟨result, after, looked + 1, by simp only [hadd, heq], hadded.trans hextends, ?_⟩
          rcases houtcome with ⟨hok, hnone, hall⟩ | ⟨herror, hcause⟩
          · have hnames' := hextends.grows.names hnames
            exact .inl ⟨hok, hnone, hall.cons_of_ok hdocument hnames'⟩
          · right
            refine ⟨herror, ?_⟩
            intro hspared
            exact hcause (hspared.right hadded.follows)
        · refine ⟨.error error, added, 1, by simp only [hadd], hadded, ?_⟩
          right
          refine ⟨⟨error, rfl⟩, ?_⟩
          intro h
          exact absurd h hspared

end PathStore.Store
