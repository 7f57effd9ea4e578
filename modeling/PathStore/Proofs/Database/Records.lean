import PathStore.Proofs.Database.Reindexing

/-!
# What has been stored

A database records a list of documents with their ids when its document store holds exactly their
bytes and its index names no id except at the path-values of its document.  Adding a document under
a fresh id extends the list, or leaves it as it is when the document cannot be stored.  The list
says what was stored, and not what is read back from the bytes.
-/

namespace PathStore

def idsIn (stored : List (String × Document)) (pathValue : String) : List String :=
  (stored.filter fun pair ↦ pathValue ∈ pair.2.pathValues).map Prod.fst

theorem mem_idsIn {stored : List (String × Document)} {pathValue id : String} :
    id ∈ idsIn stored pathValue ↔ ∃ document, (id, document) ∈ stored ∧
      pathValue ∈ document.pathValues := by
  simp [idsIn]

def storedEntry (pair : String × Document) : Bytes × Bytes :=
  (Utf8.encode pair.1, (Json.object pair.2).bytes)

def ReadBack (stored : List (String × Document)) : Prop :=
  ∀ pair ∈ stored, decodeBody (Json.object pair.2).bytes = .ok pair.2

/-- The number of documents and the lengths of their ids fit into 64 bits. -/
structure FitMachine (stored : List (String × Document)) : Prop where
  count : stored.length < 2 ^ 64
  length : ∀ pair ∈ stored, (Utf8.encode pair.1).length < 2 ^ 64

theorem FitMachine.bounded {stored : List (String × Document)} (h : FitMachine stored) :
    Store.Bounded (idsIn stored) := by
  constructor
  · intro pathValue
    have hle := List.length_filter_le (fun pair ↦ decide (pathValue ∈ pair.2.pathValues)) stored
    have hcount := h.count
    rw [idsIn, List.length_map]
    omega
  · intro pathValue id hid
    obtain ⟨document, hmem, -⟩ := mem_idsIn.mp hid
    exact h.length _ hmem

namespace Database

/-- The documents on the list are stored, nothing else is, and the index names only their ids. -/
structure Records (db : Database) (stored : List (String × Document)) : Prop where
  documents : ∀ key body, db.documents.entries.get? key = some body ↔
    ∃ pair ∈ stored, storedEntry pair = (key, body)
  index : db.index.Within (idsIn stored)

/-- The documents on the list stand under all their path-values. -/
def Indexes (db : Database) (stored : List (String × Document)) : Prop :=
  ∀ pair ∈ stored, db.index.Names pair.2.pathValues.toList pair.1

/-- Every entry names only ids of documents with its path-value. -/
def Sound (db : Database) : Prop :=
  ∀ pathValue, ∃ ids, db.index.idsAt pathValue = .ok ids ∧
    ∀ id ∈ ids, ∃ document, db.documents.Holds id document ∧ pathValue ∈ document.pathValues

/-- Every entry names the ids of all documents with its path-value, and no others. -/
def Exact (db : Database) : Prop :=
  ∀ pathValue, ∃ ids, db.index.idsAt pathValue = .ok ids ∧
    ∀ id, id ∈ ids ↔ ∃ document, db.documents.Holds id document ∧
      pathValue ∈ document.pathValues

section records

variable {db : Database} {stored : List (String × Document)} {id : String}

/-- Putting a document under a new id adds its entry to those of the list. -/
theorem get?_insert_storedEntry_iff {entries : OrderedMap Bytes Bytes} {document : Document}
    (h : ∀ key body, entries.get? key = some body ↔ ∃ pair ∈ stored, storedEntry pair = (key, body))
    (hnew : ∀ pair ∈ stored, pair.1 ≠ id) (key body : Bytes) :
    (entries.insert (Utf8.encode id) (Json.object document).bytes).get? key = some body ↔
      ∃ pair ∈ (id, document) :: stored, storedEntry pair = (key, body) := by
  rw [OrderedMap.get?_insert, List.exists_mem_cons_iff]
  split
  · rename_i hkey
    subst hkey
    have hnone : ¬ ∃ pair ∈ stored, storedEntry pair = (Utf8.encode id, body) := by
      intro hsome
      rcases hsome with ⟨pair, hmem, heq⟩
      exact hnew pair hmem (Utf8.encode_injective (Prod.mk.inj heq).1)
    rw [or_iff_left hnone, Option.some.injEq, storedEntry, Prod.mk.injEq, eq_self_iff_true,
      true_and]
  · rename_i hkey
    have hother : storedEntry (id, document) ≠ (key, body) := by
      intro heq
      exact hkey (Prod.mk.inj heq).1
    rw [or_iff_right hother]
    exact h key body

/-- A document under a fresh id extends the list. -/
theorem Records.put {document : Document} (h : db.Records stored)
    (hnew : ∀ pair ∈ stored, pair.1 ≠ id) {after : Store} (hafter : after.entries =
      db.documents.entries.insert (Utf8.encode id) (Json.object document).bytes) :
    { db with documents := after }.Records ((id, document) :: stored) := by
  constructor
  · intro key body
    rw [hafter]
    exact get?_insert_storedEntry_iff h.documents hnew key body
  · apply h.index.mono
    intro pathValue other hother
    obtain ⟨other', hmem, hpath⟩ := mem_idsIn.mp hother
    exact mem_idsIn.mpr ⟨other', List.mem_cons_of_mem _ hmem, hpath⟩

/-- What adding a document may come to: it is not stored, or it is stored and indexed, or it is
stored and the index has failed. -/
inductive Added (db : Database) (stored : List (String × Document)) (id : String) (body : Json)
    (after : Database) : Except Error String → Prop
  | refused {error : Error} (hrecords : after.Records stored) (hindex : after.index = db.index)
      (hfailures : after.metrics.indexFailures = db.metrics.indexFailures)
      (hcause : db.documents.Reliable → body.asDocument? = none) :
      Added db stored id body after (.error error)
  | indexed {document : Document} (hbody : body.asDocument? = some document)
      (hrecords : after.Records ((id, document) :: stored)) (hgrows : db.index.Grows after.index)
      (hfailures : after.metrics.indexFailures = db.metrics.indexFailures)
      (hnames : after.index.Names document.pathValues.toList id) :
      Added db stored id body after (.ok id)
  | unindexed {document : Document} (hbody : body.asDocument? = some document)
      (hrecords : after.Records ((id, document) :: stored)) (hgrows : db.index.Grows after.index)
      (hfailures : after.metrics.indexFailures = db.metrics.indexFailures + 1)
      (hspared : ¬ db.index.Spared after.index) : Added db stored id body after (.ok id)

/-- Adding either stores the document and puts its id only where it belongs, or leaves both stores
as they were. -/
theorem Records.add_cases (h : db.Records stored) (id : String) (body : Json)
    (hnew : ∀ pair ∈ stored, pair.1 ≠ id)
    (hfit : ∀ document, body.asDocument? = some document → FitMachine ((id, document) :: stored)) :
    ∃ result after, db.add id body = (result, after) ∧
      db.documents.Follows after.documents ∧ db.index.Follows after.index ∧
      after.verifiesHits = db.verifiesHits ∧ Added db stored id body after result := by
  unfold add
  cases hbody : body.asDocument? with
  | none =>
    have hrefused : Added db stored id body db (.error .notAnObject) :=
      .refused h rfl rfl fun _ ↦ hbody
    exact ⟨_, db, rfl, .refl _, .refl _, rfl, hrefused⟩
  | some document =>
    dsimp only
    obtain ⟨documents, hdocuments, ⟨hput, hentries⟩ | ⟨hspared, ⟨error, hput⟩, hentries⟩⟩ :=
      db.documents.putDocument_cases id document
    · have hrecords := h.put hnew hentries
      have hid : ∀ pathValue ∈ document.pathValues,
          id ∈ idsIn ((id, document) :: stored) pathValue := by
        intro pathValue hmem
        exact mem_idsIn.mpr ⟨document, List.mem_cons_self, hmem⟩
      obtain ⟨index, hextends, hadd⟩ :=
        hrecords.index.addToIndex_cases (hfit document hbody).bounded id hid
      rw [onDocuments, hput]
      dsimp only at hadd ⊢
      rw [indexAdded, onIndex]
      dsimp only
      rcases hadd with ⟨⟨count, hadd⟩, hnames⟩ | ⟨⟨error, hadd⟩, hspared⟩
      · rw [hadd]
        refine ⟨_, _, rfl, hdocuments, hextends.follows, rfl, ?_⟩
        refine .indexed hbody ?_ hextends.grows rfl hnames
        exact ⟨hrecords.documents, hextends.within⟩
      · rw [hadd]
        refine ⟨_, _, rfl, hdocuments, hextends.follows, rfl, ?_⟩
        refine .unindexed hbody ?_ hextends.grows rfl hspared
        exact ⟨hrecords.documents, hextends.within⟩
    · have hrecords : { db with documents := documents }.Records stored := by
        refine ⟨?_, h.index⟩
        rw [hentries]
        exact h.documents
      have hcause : db.documents.Reliable → body.asDocument? = none := by
        intro hreliable
        exact absurd (.inl hreliable) hspared
      refine ⟨.error error, { db with documents := documents }, by rw [onDocuments, hput],
        hdocuments, .refl _, rfl, ?_⟩
      exact .refused hrecords rfl rfl hcause

/-- Calls that leave the documents alone and add only ids on the list leave the list as it is. -/
theorem Records.of_entries (h : db.Records stored) {after : Database}
    (hentries : after.documents.entries = db.documents.entries)
    (hindex : after.index.Within (idsIn stored)) : after.Records stored :=
  ⟨by rw [hentries]; exact h.documents, hindex⟩

/-- What the store holds are the documents on the list as they are read back. -/
theorem Records.holds_iff (h : db.Records stored) {document : Document} :
    db.documents.Holds id document ↔ ∃ original, (id, original) ∈ stored ∧
      decodeBody (Json.object original).bytes = .ok document := by
  constructor
  · intro hholds
    rcases hholds with ⟨body, hget, hbody⟩
    obtain ⟨⟨other, original⟩, hmem, heq⟩ := (h.documents _ _).mp hget
    obtain ⟨hid, rfl⟩ := Prod.mk.inj heq
    obtain rfl := Utf8.encode_injective hid
    exact ⟨original, hmem, hbody⟩
  · intro hstored
    rcases hstored with ⟨original, hmem, hbody⟩
    exact ⟨_, (h.documents _ _).mpr ⟨_, hmem, rfl⟩, hbody⟩

theorem Records.holds_iff_mem (h : db.Records stored) (hread : ReadBack stored)
    {document : Document} : db.documents.Holds id document ↔ (id, document) ∈ stored := by
  rw [h.holds_iff]
  constructor
  · intro hstored
    rcases hstored with ⟨original, hmem, hbody⟩
    obtain rfl := Except.ok.inj ((hread _ hmem).symm.trans hbody)
    exact hmem
  · intro hmem
    exact ⟨document, hmem, hread _ hmem⟩

theorem Records.mem_idsWith_iff (h : db.Records stored) (hread : ReadBack stored)
    {pathValue : String} : id ∈ db.documents.idsWith pathValue ↔ id ∈ idsIn stored pathValue := by
  rw [Store.mem_idsWith, mem_idsIn]
  simp only [h.holds_iff_mem hread]

/-- The index covers the store just when it names all documents on the list. -/
theorem Records.covered_iff (h : db.Records stored) (hread : ReadBack stored) :
    db.Covered ↔ db.Indexes stored := by
  unfold Covered Indexes
  simp only [h.holds_iff_mem hread, Prod.forall]

/-- An index that names ids only where they belong is sound. -/
theorem Records.sound (h : db.Records stored) (hread : ReadBack stored) : db.Sound := by
  intro pathValue
  obtain ⟨ids, hids, hall⟩ := h.index pathValue
  refine ⟨ids, hids, ?_⟩
  intro id hid
  rw [← Store.mem_idsWith, h.mem_idsWith_iff hread]
  exact hall id hid

/-- A sound index that names all documents is exact. -/
theorem Records.exact (h : db.Records stored) (hread : ReadBack stored)
    (hindexes : db.Indexes stored) : db.Exact := by
  intro pathValue
  obtain ⟨ids, hids, hall⟩ := h.index pathValue
  refine ⟨ids, hids, ?_⟩
  intro id
  rw [← Store.mem_idsWith, h.mem_idsWith_iff hread]
  apply Iff.intro (hall id)
  intro hid
  obtain ⟨document, hmem, hpath⟩ := mem_idsIn.mp hid
  obtain ⟨others, hothers, hother⟩ := hindexes _ hmem pathValue hpath
  exact Except.ok.inj (hothers.symm.trans hids) ▸ hother

end records

end Database

end PathStore
