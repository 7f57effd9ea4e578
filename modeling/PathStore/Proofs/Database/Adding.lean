import PathStore.Proofs.Database.Accounting
import PathStore.Proofs.Index.Interrupted

/-!
# Adding a document

Adding a document under a new id either fails and leaves no trace, or stores the document and enters
it.  It fails for two reasons only: the body is no object, or the document cannot be written.  What
happens in the index afterwards is not an error; the failures that are counted are those documents
whose entries do not all name them.
-/

namespace PathStore

namespace Store

/-- No entry names the id. -/
def Unnamed (index : Store) (id : String) : Prop :=
  ∀ key ids, idsOfEntry (index.entries.get? key) = .ok ids → id ∉ ids

section index

variable {index : Store} {id : String} {document : Document}

/-- Wherever putting a document in stops, the path-values before that place have got the id. -/
theorem addToIndex_edited (index : Store) (id : String) (document : Document) :
    ∃ done rest result after, document.pathValues.toList = done ++ rest ∧
      index.addToIndex id document = (result, after) ∧ Edited (·.insert id) done index after ∧
      (result.isOk ↔ rest = []) := by
  obtain ⟨done, rest, result, after, hsplit, hrun, hedited, houtcome⟩ :=
    index.updateEntries_edited (·.insert id) document.pathValues.nodup
  refine ⟨done, rest, result, after, hsplit, hrun, hedited, ?_⟩
  rcases houtcome with ⟨⟨count, rfl⟩, rfl⟩ | ⟨⟨error, rfl⟩, pathValue, tail, rfl, -⟩
  · exact iff_of_true rfl rfl
  · exact iff_of_false nofun nofun

/-- The entries name the new document everywhere just when no failure has been reported. -/
theorem names_addToIndex_iff (hunnamed : index.Unnamed id)
    (hfits : index.FitsWith id document.pathValues.toList) :
    (index.addToIndex id document).2.Names document.pathValues.toList id ↔
      (index.addToIndex id document).1.isOk := by
  obtain ⟨done, rest, result, after, hsplit, hadd, hedited, hok⟩ :=
    index.addToIndex_edited id document
  rw [hadd, hok, hsplit]
  constructor
  · intro hnames
    -- The entry at which the run has stopped is as it was, without the id.
    by_contra hne
    obtain ⟨pathValue, hrest⟩ := List.exists_mem_of_ne_nil rest hne
    have hnodup : (done ++ rest).Nodup := hsplit ▸ document.pathValues.nodup
    have hnot : pathValue ∉ done := by
      intro hmem
      exact (List.disjoint_of_nodup_append hnodup) hmem hrest
    obtain ⟨ids, hids, hid⟩ := hnames pathValue (List.mem_append_right _ hrest)
    rw [idsAt_congr (hedited.get?_of_not_mem hnot), idsAt_eq_idsOfEntry] at hids
    exact hunnamed _ ids hids hid
  · intro hnil pathValue hmem
    rw [hnil, List.append_nil] at hmem
    have hpathValue : pathValue ∈ document.pathValues.toList :=
      hsplit ▸ List.mem_append_left _ hmem
    obtain ⟨ids, hids⟩ := hedited.readable pathValue hmem
    have hafter := hedited.idsAt_eq hmem hids (hfits pathValue hpathValue ids hids)
    exact ⟨ids.insert id, hafter, OrderedSet.mem_insert.mpr (.inl rfl)⟩

/-- An entry changes only at a path-value of the document, where it can be read, and by the id. -/
theorem entry_addToIndex (hfits : index.FitsWith id document.pathValues.toList) (key : Bytes) :
    (index.addToIndex id document).2.entries.get? key = index.entries.get? key ∨
      key ∈ document.pathValues.toList.map Utf8.encode ∧
        ∃ ids, idsOfEntry (index.entries.get? key) = .ok ids ∧
          idsOfEntry ((index.addToIndex id document).2.entries.get? key) =
            .ok (ids.insert id) := by
  obtain ⟨done, rest, result, after, hsplit, hadd, hedited, -⟩ :=
    index.addToIndex_edited id document
  rw [hadd]
  by_cases hkey : key ∈ done.map Utf8.encode
  · obtain ⟨pathValue, hmem, rfl⟩ := List.mem_map.mp hkey
    have hpathValue : pathValue ∈ document.pathValues.toList :=
      hsplit ▸ List.mem_append_left _ hmem
    obtain ⟨ids, hids⟩ := hedited.readable pathValue hmem
    have hafter := hedited.idsAt_eq hmem hids (hfits pathValue hpathValue ids hids)
    rw [idsAt_eq_idsOfEntry] at hids hafter
    exact .inr ⟨List.mem_map_of_mem hpathValue, ids, hids, hafter⟩
  · exact .inl (hedited.other key hkey)

section entries

variable (hfits : index.FitsWith id document.pathValues.toList) {key : Bytes}

include hfits

/-- An entry gains the new id or nothing. -/
theorem ids_addToIndex {ids : IdSet} (hids : idsOfEntry (index.entries.get? key) = .ok ids) :
    ∃ others, idsOfEntry ((index.addToIndex id document).2.entries.get? key) = .ok others ∧
      (others = ids ∨ others = ids.insert id) := by
  rcases entry_addToIndex hfits key with hsame | ⟨-, found, hfound, hafter⟩
  · exact ⟨ids, hsame ▸ hids, .inl rfl⟩
  · obtain rfl := Except.ok.inj (hids.symm.trans hfound)
    exact ⟨_, hafter, .inr rfl⟩

theorem unreadable_addToIndex {fault : IdSetFault}
    (hfault : idsOfEntry (index.entries.get? key) = .error fault) :
    (index.addToIndex id document).2.entries.get? key = index.entries.get? key := by
  rcases entry_addToIndex hfits key with hsame | ⟨-, ids, hids, -⟩
  · exact hsame
  · cases hids.symm.trans hfault

/-- Entries of other path-values are left alone. -/
theorem elsewhere_addToIndex (hkey : key ∉ document.pathValues.toList.map Utf8.encode) :
    (index.addToIndex id document).2.entries.get? key = index.entries.get? key :=
  (entry_addToIndex hfits key).resolve_right fun hchanged ↦ hkey hchanged.1

end entries

end index

theorem putDocument_eq_error_iff {documents : Store} {id : String} {document : Document} :
    (∃ error, (documents.putDocument id document).1 = .error error) ↔
      documents.sets.failsNext = true := by
  unfold putDocument set
  cases documents.sets.failsNext with
  | true => exact iff_of_true ⟨_, rfl⟩ rfl
  | false => exact iff_of_false (fun h ↦ by obtain ⟨error, herror⟩ := h; cases herror) nofun

end Store

namespace Database

/-- The document has been stored under the id and entered.  Each index entry keeps its ids and gains
none but this one, only at path-values of the document, and stays as it is where it cannot be read.
The document counts as added, and as an index failure if one of its entries does not name it. -/
structure Grown (id : String) (document : Document) (before after : Database) : Prop where
  documents : after.documents.entries =
    before.documents.entries.insert (Utf8.encode id) (Json.object document).bytes
  ids : ∀ key ids, Store.idsOfEntry (before.index.entries.get? key) = .ok ids →
    ∃ others, Store.idsOfEntry (after.index.entries.get? key) = .ok others ∧
      (others = ids ∨ others = ids.insert id)
  unreadable : ∀ key fault, Store.idsOfEntry (before.index.entries.get? key) = .error fault →
    after.index.entries.get? key = before.index.entries.get? key
  elsewhere : ∀ key ∉ document.pathValues.toList.map Utf8.encode,
    after.index.entries.get? key = before.index.entries.get? key
  added : after.metrics.added = before.metrics.added + 1
  gauge : after.metrics.documents = gaugeValue (before.metrics.documents + 1)
  gaugeExact : before.metrics.documents < 2 ^ 53 →
    after.metrics.documents = before.metrics.documents + 1
  complete : after.index.Names document.pathValues.toList id →
    after.metrics.indexFailures = before.metrics.indexFailures
  incomplete : ¬ after.index.Names document.pathValues.toList id →
    after.metrics.indexFailures = before.metrics.indexFailures + 1
  searches : after.metrics.searchErrors = before.metrics.searchErrors ∧
    ∀ strategy, after.metrics.ofStrategy strategy = before.metrics.ofStrategy strategy

section adding

variable {db : Database} {id : String} {body : Json}

theorem gaugeValue_succ {count : Nat} (h : count < 2 ^ 53) :
    gaugeValue (count + 1) = count + 1 := by
  rcases Nat.lt_or_eq_of_le (Nat.succ_le_of_lt h) with hlt | heq
  · exact gaugeValue_of_lt hlt
  · rw [show count + 1 = 2 ^ 53 from heq]
    decide

/-- Adding fails for two reasons only. -/
theorem add_eq_error_iff : (∃ error, (db.add id body).1 = .error error) ↔
    body.asDocument? = none ∨ db.documents.sets.failsNext = true := by
  unfold add onDocuments
  cases body.asDocument? with
  | none => exact iff_of_true ⟨_, rfl⟩ (.inl rfl)
  | some document =>
    have hput : (∃ error, (db.documents.putDocument id document).1 = .error error) ↔
        db.documents.sets.failsNext = true := Store.putDocument_eq_error_iff
    rw [← hput]
    dsimp only
    generalize db.documents.putDocument id document = call
    rcases call with ⟨_ | _, documents⟩ <;> simp

/-- An error has no effect. -/
theorem unchanged_of_add_error (h : ∃ error, (db.add id body).1 = .error error) :
    (db.add id body).2.documents.entries = db.documents.entries ∧
      (db.add id body).2.index = db.index ∧ (db.add id body).2.metrics = db.metrics := by
  obtain ⟨result, after, hadd, ⟨-, hdocuments, hindex, hmetrics⟩ | ⟨rfl, -⟩⟩ :=
    db.add_effect id body
  · rw [hadd]
    exact ⟨hdocuments, hindex, hmetrics⟩
  · obtain ⟨error, herror⟩ := h
    rw [hadd] at herror
    cases herror

/-- A document that is accepted is stored and entered, whatever happens in the index. -/
theorem grown_of_add {document : Document} (hbody : body.asDocument? = some document)
    (hwritten : db.documents.sets.failsNext = false) (hunnamed : db.index.Unnamed id)
    (hfits : db.index.FitsWith id document.pathValues.toList) :
    (db.add id body).1 = .ok id ∧ Grown id document db (db.add id body).2 := by
  obtain ⟨result, after, hadd, ⟨herror, -⟩ | ⟨rfl, other, hother, hdocuments, hindex, hmetrics⟩⟩ :=
    db.add_effect id body
  · have hfailed : ∃ error, (db.add id body).1 = .error error := hadd ▸ herror
    rcases add_eq_error_iff.mp hfailed with hnone | hfails
    · cases hbody.symm.trans hnone
    · cases hwritten.symm.trans hfails
  obtain rfl := Option.some.inj (hbody.symm.trans hother)
  rw [hadd]
  have hnames := Store.names_addToIndex_iff hunnamed hfits
  rw [← hindex] at hnames
  have hgauge : after.metrics.documents = gaugeValue (db.metrics.documents + 1) := by
    rw [hmetrics]
    split <;> rfl
  apply And.intro rfl
  constructor
  case documents => exact hdocuments
  case ids =>
    intro key ids hids
    rw [hindex]
    exact Store.ids_addToIndex hfits hids
  case unreadable =>
    intro key fault hfault
    rw [hindex]
    exact Store.unreadable_addToIndex hfits hfault
  case elsewhere =>
    intro key hkey
    rw [hindex]
    exact Store.elsewhere_addToIndex hfits hkey
  case added =>
    rw [hmetrics]
    split <;> rfl
  case gauge => exact hgauge
  case gaugeExact =>
    intro hlt
    rw [hgauge, gaugeValue_succ hlt]
  case complete =>
    intro hcomplete
    rw [hmetrics, if_pos (hnames.mp hcomplete)]
    rfl
  case incomplete =>
    intro hincomplete
    rw [hmetrics, if_neg (mt hnames.mpr hincomplete)]
    rfl
  case searches =>
    rw [hmetrics]
    split <;> exact ⟨rfl, fun strategy ↦ by cases strategy <;> rfl⟩

/-- Under an id that is not in use, adding a document is an error only if the body is no object or
the document cannot be written, and then changes nothing.  Otherwise it returns the id, and the
database has grown by the document. -/
theorem add_atomic_precise (hunused : db.documents.entries.get? (Utf8.encode id) = none)
    (hunnamed : db.index.Unnamed id)
    (hfits : ∀ document, body.asDocument? = some document →
      db.index.FitsWith id document.pathValues.toList) :
    ((∃ error, (db.add id body).1 = .error error) ↔
        body.asDocument? = none ∨ db.documents.sets.failsNext = true) ∧
      ((∃ error, (db.add id body).1 = .error error) →
        (db.add id body).2.documents.entries = db.documents.entries ∧
          (db.add id body).2.index = db.index ∧ (db.add id body).2.metrics = db.metrics) ∧
      ∀ document, body.asDocument? = some document → db.documents.sets.failsNext = false →
        (db.add id body).1 = .ok id ∧ Grown id document db (db.add id body).2 ∧
          (db.add id body).2.documents.size = db.documents.size + 1 := by
  refine ⟨add_eq_error_iff, unchanged_of_add_error, ?_⟩
  intro document hbody hwritten
  obtain ⟨hok, hgrown⟩ := grown_of_add hbody hwritten hunnamed (hfits document hbody)
  refine ⟨hok, hgrown, ?_⟩
  rw [Store.size, hgrown.documents]
  exact OrderedMap.size_insert hunused _

end adding

/-- A document with two path-values, of which the index takes one. -/
def twoMembers : Document :=
  [("k", .number (.integer 1)), ("l", .null)]

theorem add_atomic_precise_faulty :
    (faulty.add "n" (.object twoMembers)).1 = .ok "n" ∧
      Grown "n" twoMembers faulty (faulty.add "n" (.object twoMembers)).2 ∧
      (faulty.add "n" (.object twoMembers)).2.metrics.indexFailures = 1 ∧
      (faulty.add "n" .null).1 = .error .notAnObject := by
  have hunnamed : faulty.index.Unnamed "n" := by
    intro key ids hids
    obtain rfl := Except.ok.inj hids
    exact OrderedSet.not_mem_empty "n"
  have hfits (document : Document) : faulty.index.FitsWith "n" document.pathValues.toList := by
    intro pathValue hmem ids hids
    obtain rfl := Except.ok.inj hids
    exact ⟨by decide, by decide⟩
  obtain ⟨-, -, hadded⟩ := @add_atomic_precise faulty "n" (.object twoMembers) rfl hunnamed
    fun document _ ↦ hfits document
  obtain ⟨hok, hgrown, -⟩ := hadded twoMembers rfl rfl
  exact ⟨hok, hgrown, by rfl, rfl⟩

end Database

end PathStore
