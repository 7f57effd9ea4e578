import PathStore.Proofs.Database.Rebuilding
import PathStore.Proofs.Json.Readable

/-!
# What an accepted document does to reading

Whatever is an object is accepted, and stored as its text.  An accepted document can never be read
again if it is nested more deeply than the reader follows, or if an object inside it begins with the
mark of another text and is not that mark with such a text alone; every search that looks at all
documents fails from then on.  Nothing else about a document matters: as long as none is like that,
each can be read and a search for everything finds each of them once.  The index plays no part here,
and the stores do not fail.
-/

namespace PathStore

def addingAll (adds : List (String × Json)) : List Operation :=
  adds.map fun add ↦ .add add.1 add.2

def documentsIn (adds : List (String × Json)) : List (String × Document) :=
  adds.filterMap fun add ↦ add.2.asDocument?.map (add.1, ·)

section documentsIn

variable {adds : List (String × Json)}

theorem mem_documentsIn {pair : String × Document} :
    pair ∈ documentsIn adds ↔ (pair.1, .object pair.2) ∈ adds := by
  obtain ⟨id, document⟩ := pair
  simp only [documentsIn, List.mem_filterMap, Option.map_eq_some_iff, Json.asDocument?_eq_some_iff]
  constructor
  · intro h
    obtain ⟨add, hadd, other, hbody, heq⟩ := h
    obtain ⟨rfl, rfl⟩ := Prod.mk.inj heq
    exact hbody ▸ hadd
  · intro h
    exact ⟨_, h, document, rfl, rfl⟩

/-- Leaving values out does not make ids meet. -/
theorem documentsIn_ids_sublist (adds : List (String × Json)) :
    ((documentsIn adds).map Prod.fst).Sublist (adds.map Prod.fst) := by
  induction adds with
  | nil => exact .slnil
  | cons add adds ih =>
    rw [documentsIn, List.filterMap_cons]
    cases add.2.asDocument? with
    | none => exact ih.cons add.1
    | some document => exact ih.cons_cons add.1

end documentsIn

namespace Database

/-- The documents that are accepted when values are added one after the other, with their ids. -/
def accepted (db : Database) : List (String × Json) → List (String × Json)
  | [] => []
  | (id, body) :: rest =>
    match db.add id body with
    | (.ok id, after) => (id, body) :: after.accepted rest
    | (.error _, after) => after.accepted rest

/-- Every accepted document can be read, and a search for everything has one hit for each. -/
structure Readable (db : Database) (accepted : List (String × Json)) : Prop where
  get : ∀ pair ∈ accepted, ∃ document, (db.get pair.1).1 = .ok document
  search : ∀ duration, ∃ outcome, (db.search "" false duration).1 = .ok outcome ∧
    (outcome.hits.map (·.id)).Perm (accepted.map Prod.fst)

/-- The accepted documents are nested no deeper than the reader follows, and every object inside
them that begins with the mark stands for the value of a text. -/
def AllReadable (db : Database) (adds : List (String × Json)) : Prop :=
  ∀ id document, (id, .object document) ∈ db.accepted adds → Json.ReadableDocument document

/-- After each of the calls, what has been accepted so far can be read. -/
def StaysReadable (db : Database) (adds : List (String × Json)) : Prop :=
  ∀ made, made <+: adds → (db.run (addingAll made)).Readable (db.accepted made)

end Database

namespace Store

section keeps

variable {documents : Store} {pairs : List (String × Document)} (h : documents.Keeps pairs)
  (hdistinct : (pairs.map Prod.fst).Nodup)
  (hcanonical : ∀ pair ∈ pairs, (Json.object pair.2).Canonical)

include h hdistinct

/-- Under distinct ids, the entries are the texts of the documents. -/
theorem Keeps.get?_eq_some_iff {id : String} {body : Bytes} :
    documents.entries.get? (Utf8.encode id) = some body ↔
      ∃ document, (id, document) ∈ pairs ∧ (Json.object document).bytes = body := by
  rw [h.get?_encode, Option.map_eq_some_iff]
  simp only [mem_of_nodup_lastPut? hdistinct]

include hcanonical

/-- A document that is kept can be got just when it can be read. -/
theorem Keeps.documentAt_eq_ok_iff {id : String} {document : Document}
    (hmem : (id, document) ∈ pairs) :
    (∃ found, documents.documentAt id = .ok found) ↔
      Json.ReadableDocument document := by
  have hget := (h.get?_eq_some_iff hdistinct).mpr ⟨document, hmem, rfl⟩
  rw [← Json.decodeBody_eq_ok_iff (hcanonical _ hmem), documentAt, hget]

/-- A store has a bad document just when one of those it keeps cannot be read. -/
theorem Keeps.hasBadDocument_iff :
    documents.HasBadDocument ↔
      ¬ ∀ pair ∈ pairs, Json.ReadableDocument pair.2 := by
  constructor
  · intro hbad hreadable
    obtain ⟨⟨key, body⟩, hentry, hbad⟩ := hbad
    obtain ⟨id, document, hlast, rfl, rfl⟩ :=
      (h.entry key body).mp (OrderedMap.mem_entries_iff.mp hentry)
    have hmem := (mem_of_nodup_lastPut? hdistinct).mp hlast
    rcases hbad with ⟨fault, hfault⟩ | ⟨error, herror⟩
    · cases (Utf8.decode_encode id).symm.trans hfault
    · obtain ⟨found, hfound⟩ :=
        (Json.decodeBody_eq_ok_iff (hcanonical _ hmem)).mpr (hreadable _ hmem)
      cases hfound.symm.trans herror
  · intro hunreadable
    simp only [not_forall] at hunreadable
    obtain ⟨pair, hmem, hunreadable⟩ := hunreadable
    have hget := (h.get?_eq_some_iff hdistinct).mpr ⟨pair.2, hmem, rfl⟩
    refine ⟨_, OrderedMap.mem_entries_iff.mpr hget, .inr ?_⟩
    cases hbody : decodeBody (Json.object pair.2).bytes with
    | error error => exact ⟨error, rfl⟩
    | ok found =>
      exact absurd ((Json.decodeBody_eq_ok_iff (hcanonical _ hmem)).mp ⟨found, hbody⟩) hunreadable

/-- Where all documents can be read, those held are those on the list. -/
theorem Keeps.exists_holds_iff
    (hreadable : ∀ pair ∈ pairs, Json.ReadableDocument pair.2) {id : String} :
    (∃ found, documents.Holds id found) ↔ id ∈ pairs.map Prod.fst := by
  simp only [← Store.documentAt_eq_ok_iff]
  constructor
  · intro hheld
    obtain ⟨found, hfound⟩ := hheld
    rw [Store.documentAt_eq_ok_iff] at hfound
    obtain ⟨body, hget, -⟩ := hfound
    obtain ⟨document, hmem, -⟩ := (h.get?_eq_some_iff hdistinct).mp hget
    exact List.mem_map_of_mem hmem
  · intro hid
    obtain ⟨⟨id, document⟩, hmem, rfl⟩ := List.mem_map.mp hid
    exact (h.documentAt_eq_ok_iff hdistinct hcanonical hmem).mpr (hreadable _ hmem)

end keeps

end Store

namespace Database

section additions

variable {db : Database} {pairs : List (String × Document)}

theorem add_of_not_document (id : String) {body : Json} (h : body.asDocument? = none) :
    db.add id body = (.error .notAnObject, db) := by
  rw [add, h]

/-- An object is accepted and kept, whatever becomes of the index. -/
theorem add_object (h : db.documents.Keeps pairs) (id : String) (document : Document) :
    ∃ after, db.add id (.object document) = (.ok id, after) ∧
      after.documents.Keeps (pairs ++ [(id, document)]) := by
  obtain ⟨hput, hkeeps⟩ := h.put (id, document)
  have hbody : (Json.object document).asDocument? = some document := rfl
  generalize hafter : db.documents.putDocument id document = after at hput hkeeps
  obtain ⟨result, documents⟩ := after
  obtain rfl : result = _ := hput
  simp only [add, hbody, onDocuments, hafter, indexAdded, onIndex]
  refine ⟨_, rfl, ?_⟩
  generalize db.index.addToIndex id document = added
  obtain ⟨_ | _, index⟩ := added
  · exact hkeeps
  · exact hkeeps

/-- What is accepted are the documents, and these are kept. -/
theorem run_addingAll (h : db.documents.Keeps pairs) (adds : List (String × Json)) :
    (db.run (addingAll adds)).documents.Keeps (pairs ++ documentsIn adds) ∧
      db.accepted adds = (documentsIn adds).map fun pair ↦ (pair.1, .object pair.2) := by
  induction adds generalizing db pairs with
  | nil => exact ⟨(List.append_nil pairs).symm ▸ h, rfl⟩
  | cons add adds ih =>
    obtain ⟨id, body⟩ := add
    have hrun : db.run (addingAll ((id, body) :: adds)) =
        (db.add id body).2.run (addingAll adds) := rfl
    rw [hrun, documentsIn, List.filterMap_cons, accepted]
    cases hbody : body.asDocument? with
    | none =>
      rw [add_of_not_document id hbody]
      exact ih h
    | some document =>
      obtain rfl := Json.asDocument?_eq_some_iff.mp hbody
      obtain ⟨after, hadd, hafter⟩ := add_object h id document
      obtain ⟨hkeeps, haccepted⟩ := ih hafter
      rw [hadd]
      refine ⟨?_, congrArg _ haccepted⟩
      rwa [List.append_assoc] at hkeeps

theorem holdsIn_nil (document : Document) : Query.holdsIn [] document :=
  rfl

section reading

variable (h : db.documents.Keeps pairs) (hdistinct : (pairs.map Prod.fst).Nodup)
  (hcanonical : ∀ pair ∈ pairs, (Json.object pair.2).Canonical)

include h hdistinct hcanonical

theorem get_eq_ok_iff {id : String} {document : Document} (hmem : (id, document) ∈ pairs) :
    (∃ found, (db.get id).1 = .ok found) ↔ Json.ReadableDocument document := by
  have hget : (db.get id).1 = (db.documents.getDocument id).1 := rfl
  rw [hget, Store.getDocument_of_reliable h.reliable,
    h.documentAt_eq_ok_iff hdistinct hcanonical hmem]

/-- A search for everything fails, or has one hit for each document. -/
theorem search_everything (duration : Duration) :
    (∀ pair ∈ pairs, Json.ReadableDocument pair.2) ∧
        (∃ outcome, (db.search "" false duration).1 = .ok outcome ∧
          (outcome.hits.map (·.id)).Perm (pairs.map Prod.fst)) ∨
      (¬ ∀ pair ∈ pairs, Json.ReadableDocument pair.2) ∧
        ∃ error, (db.search "" false duration).1 = .error error := by
  have hparse : Query.parse "" = .ok [] := by decide +kernel
  have hscan : (db.search "" false duration).1 = (db.fullScan []).1 :=
    search_eq_searchQuery db hparse false duration
  rw [hscan]
  have hbad := (Store.meetsError_iff_of_reliable h.reliable).trans
    (h.hasBadDocument_iff hdistinct hcanonical)
  obtain ⟨after, -, ⟨⟨hits, hresult, hhits⟩, hgood⟩ | ⟨⟨error, hresult⟩, hmeets⟩⟩ :=
    db.fullScan_cases []
  · have hreadable := not_not.mp (mt hbad.mpr hgood)
    left
    refine ⟨hreadable, _, by rw [hresult], ?_⟩
    rw [List.perm_ext_iff_of_nodup hhits.nodup_ids hdistinct]
    intro id
    rw [← h.exists_holds_iff hdistinct hcanonical hreadable, List.mem_map]
    constructor
    · intro hhit
      obtain ⟨hit, hhit, rfl⟩ := hhit
      exact ⟨hit.body, ((hhits.mem_iff hit).mp hhit).1⟩
    · intro hheld
      obtain ⟨found, hfound⟩ := hheld
      exact ⟨⟨id, found⟩, (hhits.mem_iff _).mpr ⟨hfound, holdsIn_nil found⟩, rfl⟩
  · exact .inr ⟨hbad.mp hmeets, error, by rw [hresult]⟩

end reading

end additions

section poisoned

variable {db : Database} (hfresh : db.Fresh) (hreliable : db.Reliable)
  {adds : List (String × Json)}

include hfresh hreliable

/-- The objects are accepted, and nothing else is. -/
theorem accepted_eq (adds : List (String × Json)) :
    db.accepted adds = (documentsIn adds).map fun pair ↦ (pair.1, .object pair.2) :=
  (run_addingAll (Store.keeps_of_empty hreliable.documents hfresh.documents) adds).2

theorem keeps_documentsIn (adds : List (String × Json)) :
    (db.run (addingAll adds)).documents.Keeps (documentsIn adds) :=
  (run_addingAll (Store.keeps_of_empty hreliable.documents hfresh.documents) adds).1

theorem mem_accepted_iff {pair : String × Json} :
    pair ∈ db.accepted adds ↔ pair ∈ adds ∧ pair.2.isDocument := by
  rw [accepted_eq hfresh hreliable, List.mem_map]
  obtain ⟨id, body⟩ := pair
  constructor
  · intro h
    obtain ⟨pair, hmem, heq⟩ := h
    obtain ⟨rfl, rfl⟩ := Prod.mk.inj heq
    exact ⟨mem_documentsIn.mp hmem, rfl⟩
  · intro h
    obtain ⟨hmem, hdocument⟩ := h
    cases body with
    | object document => exact ⟨(id, document), mem_documentsIn.mpr hmem, rfl⟩
    | _ => cases hdocument

theorem allReadable_iff :
    db.AllReadable adds ↔ ∀ pair ∈ documentsIn adds, Json.ReadableDocument pair.2 := by
  constructor
  · intro h pair hpair
    exact h pair.1 pair.2 ((mem_accepted_iff hfresh hreliable).mpr ⟨mem_documentsIn.mp hpair, rfl⟩)
  · intro h id document hmem
    exact h (id, document) (mem_documentsIn.mpr ((mem_accepted_iff hfresh hreliable).mp hmem).1)

variable (hdistinct : (adds.map Prod.fst).Nodup) (hcanonical : ∀ add ∈ adds, add.2.Canonical)

include hdistinct hcanonical

/-- An accepted document can be got just when it can be read. -/
theorem get_accepted_iff {id : String} {document : Document}
    (h : (id, .object document) ∈ db.accepted adds) :
    (∃ found, ((db.run (addingAll adds)).get id).1 = .ok found) ↔
      Json.ReadableDocument document := by
  have hmem : (id, document) ∈ documentsIn adds :=
    mem_documentsIn.mpr ((mem_accepted_iff hfresh hreliable).mp h).1
  exact get_eq_ok_iff (keeps_documentsIn hfresh hreliable adds)
    ((documentsIn_ids_sublist adds).nodup hdistinct)
    (fun other hother ↦ hcanonical _ (mem_documentsIn.mp hother)) hmem

/-- One document that cannot be read makes every search for everything fail. -/
theorem search_accepted (duration : Duration) :
    db.AllReadable adds ∧
        (∃ outcome, ((db.run (addingAll adds)).search "" false duration).1 = .ok outcome ∧
          (outcome.hits.map (·.id)).Perm ((db.accepted adds).map Prod.fst)) ∨
      ¬ db.AllReadable adds ∧
        ∃ error, ((db.run (addingAll adds)).search "" false duration).1 = .error error := by
  have hids : ((documentsIn adds).map fun pair ↦ (pair.1, Json.object pair.2)).map Prod.fst =
      (documentsIn adds).map Prod.fst := List.map_map
  rw [allReadable_iff hfresh hreliable, accepted_eq hfresh hreliable, hids]
  exact search_everything (keeps_documentsIn hfresh hreliable adds)
    ((documentsIn_ids_sublist adds).nodup hdistinct)
    (fun other hother ↦ hcanonical _ (mem_documentsIn.mp hother)) duration

/-- Everything is readable just when each accepted document is. -/
theorem readable_iff :
    (db.run (addingAll adds)).Readable (db.accepted adds) ↔ db.AllReadable adds := by
  constructor
  · intro h id document hmem
    have hget := h.get (id, .object document) hmem
    exact (get_accepted_iff hfresh hreliable hdistinct hcanonical hmem).mp hget
  · intro hall
    constructor
    · intro pair hpair
      obtain ⟨-, hdocument⟩ := (mem_accepted_iff hfresh hreliable).mp hpair
      obtain ⟨document, hdocument⟩ := Option.isSome_iff_exists.mp hdocument
      have hobject : (pair.1, .object document) ∈ db.accepted adds :=
        Json.asDocument?_eq_some_iff.mp hdocument ▸ hpair
      exact (get_accepted_iff hfresh hreliable hdistinct hcanonical hobject).mpr
        (hall pair.1 document hobject)
    · intro duration
      rcases search_accepted hfresh hreliable hdistinct hcanonical duration with
        ⟨-, hfound⟩ | ⟨hbad, -⟩
      · exact hfound
      · exact absurd hall hbad

end poisoned

/-- What is accepted are the objects.  They all stay readable if and only if none of them is nested
too deeply or has an object inside that begins with the mark and does not stand for the value of a
text; one that is so can never be read itself, and makes every search for everything fail. -/
theorem staysReadable_iff {db : Database} (hfresh : db.Fresh) (hreliable : db.Reliable)
    {adds : List (String × Json)} (hdistinct : (adds.map Prod.fst).Nodup)
    (hcanonical : ∀ add ∈ adds, add.2.Canonical) :
    (∀ pair, pair ∈ db.accepted adds ↔ pair ∈ adds ∧ pair.2.isDocument) ∧
      (db.StaysReadable adds ↔ db.AllReadable adds) ∧
      (∀ id document, (id, .object document) ∈ db.accepted adds →
        ((∃ found, ((db.run (addingAll adds)).get id).1 = .ok found) ↔
          Json.ReadableDocument document)) ∧
      ∀ duration,
        (∃ outcome, ((db.run (addingAll adds)).search "" false duration).1 = .ok outcome) ↔
          db.AllReadable adds := by
  refine ⟨fun pair ↦ mem_accepted_iff hfresh hreliable, ?_,
    fun id document ↦ get_accepted_iff hfresh hreliable hdistinct hcanonical, ?_⟩
  · constructor
    · intro h
      exact (readable_iff hfresh hreliable hdistinct hcanonical).mp (h adds (List.prefix_refl adds))
    · intro hall made hmade
      have hsub := hmade.sublist
      apply (readable_iff hfresh hreliable ((hsub.map Prod.fst).nodup hdistinct)
        fun add hadd ↦ hcanonical add (hsub.subset hadd)).mpr
      intro id document hmem
      obtain ⟨hadd, hdocument⟩ := (mem_accepted_iff hfresh hreliable).mp hmem
      exact hall id document ((mem_accepted_iff hfresh hreliable).mpr ⟨hsub.subset hadd, hdocument⟩)
  · intro duration
    rcases search_accepted hfresh hreliable hdistinct hcanonical duration with
      ⟨hall, outcome, houtcome, -⟩ | ⟨hbad, error, herror⟩
    · exact iff_of_true ⟨outcome, houtcome⟩ hall
    · rw [herror]
      exact iff_of_false nofun hbad

/-- The greatest number and the least one, an object that stands for the value of a text, a value
that is no document, and an empty document. -/
def extremeAdds : List (String × Json) :=
  [("1", .object [("x", .array [.number (.double (.ofMagnitude false 0x7FEFFFFFFFFFFFFF)),
      .number (.double (.ofMagnitude true 1)), .object [(Json.textMark, .string "[]")]])]),
    ("2", .null), ("3", .object [])]

theorem staysReadable_extreme : (empty true).StaysReadable extremeAdds := by
  have hcanonical : ∀ add ∈ extremeAdds, add.2.Canonical := by
    intro add hadd
    simp only [extremeAdds, List.mem_cons, List.not_mem_nil, or_false] at hadd
    rcases hadd with rfl | rfl | rfl
    · have hgreatest : (Binary64.ofMagnitude false 0x7FEFFFFFFFFFFFFF).isFinite := by decide +kernel
      have hleast : (Binary64.ofMagnitude true 1).isFinite := by decide +kernel
      exact ⟨nofun, ⟨hgreatest, hleast, ⟨nofun, trivial, trivial⟩, trivial⟩, trivial⟩
    · trivial
    · trivial
  have hfresh : (empty true).Fresh := ⟨rfl, rfl⟩
  have hreliable : (empty true).Reliable := ⟨Store.reliable_empty _, Store.reliable_empty _⟩
  obtain ⟨haccepted, hstays, -⟩ := staysReadable_iff hfresh hreliable (by decide) hcanonical
  apply hstays.mpr
  intro id document hmem
  have hadd := ((haccepted _).mp hmem).1
  simp only [extremeAdds, List.mem_cons, Prod.mk.injEq, Json.object.injEq, reduceCtorEq, and_false,
    List.not_mem_nil, or_false, false_or] at hadd
  rcases hadd with ⟨-, rfl⟩ | ⟨-, rfl⟩
  · have hstands : Json.StandsForText [(Json.textMark, .string "[]")] :=
      ⟨"[]", .array [], rfl, rfl⟩
    exact ⟨by decide, ⟨trivial, trivial, ⟨fun _ ↦ hstands, trivial, trivial⟩, trivial⟩, trivial⟩
  · exact ⟨by decide, trivial⟩

def nested : Nat → Json
  | 0 => .array []
  | n + 1 => .array [nested n]

theorem canonical_nested (n : Nat) : (nested n).Canonical := by
  induction n with
  | zero => trivial
  | succ n ih => exact ⟨ih, trivial⟩

/-- A document that is nested one level too deeply. -/
def nestedAdds : List (String × Json) :=
  [("1", .object [("k", nested 126)])]

def markedAdds : List (String × Json) :=
  [("1", .object Json.markedDocument)]

/-- One accepted document that cannot be got is enough. -/
theorem not_staysReadable_of_get {adds : List (String × Json)} {id : String} {body : Json}
    (haccepted : (id, body) ∈ (empty true).accepted adds)
    (hunread : (((empty true).run (addingAll adds)).get id).1.toOption.isNone) :
    ¬ (empty true).StaysReadable adds := by
  intro h
  obtain ⟨document, hdocument⟩ := (h adds (List.prefix_refl adds)).get _ haccepted
  rw [hdocument] at hunread
  cases hunread

/-- A document with a marked object inside and one that is nested too deeply are accepted, but they
cannot be read. -/
theorem not_staysReadable_marked :
    ((∀ add ∈ markedAdds, add.2.Canonical) ∧ ¬ (empty true).StaysReadable markedAdds) ∧
      (∀ add ∈ nestedAdds, add.2.Canonical) ∧ ¬ (empty true).StaysReadable nestedAdds := by
  refine ⟨⟨?_, ?_⟩, ?_, ?_⟩
  · exact List.forall_mem_singleton.mpr Json.canonical_markedDocument
  · exact not_staysReadable_of_get (List.mem_singleton_self _) (by decide +kernel)
  · exact List.forall_mem_singleton.mpr ⟨nofun, canonical_nested 126, trivial⟩
  · exact not_staysReadable_of_get (List.mem_singleton_self _) (by decide +kernel)

end Database

end PathStore
