import Mathlib.Data.List.Induction
import PathStore.Proofs.Json.Readable
import PathStore.Proofs.Storage.Documents

/-!
# What has been put is kept

After any number of documents have been put into an empty store, each id has the last document put
under it, and every call tells of these documents and of no others.  The entries are those of the
last puts whatever the documents are.  That a document is read back as it was rests on its text: its
numbers are integers of 64 bits, it is not nested too deeply, and no object inside it begins with
the mark of another text.
-/

namespace PathStore

/-- The document put last under an id. -/
def lastPut? (puts : List (String × Document)) (id : String) : Option Document :=
  (puts.reverse.find? (·.1 = id)).map Prod.snd

theorem lastPut?_append (puts : List (String × Document)) (pair : String × Document) (id : String) :
    lastPut? (puts ++ [pair]) id = if pair.1 = id then some pair.2 else lastPut? puts id := by
  rw [lastPut?, List.reverse_append, List.reverse_singleton, List.singleton_append, List.find?_cons]
  split <;> simp_all [lastPut?]

theorem mem_of_lastPut? {puts : List (String × Document)} {id : String} {document : Document}
    (h : lastPut? puts id = some document) : (id, document) ∈ puts := by
  obtain ⟨pair, hfind, rfl⟩ := Option.map_eq_some_iff.mp h
  have hid : pair.1 = id := by simpa using List.find?_some hfind
  exact hid ▸ List.mem_reverse.mp (List.mem_of_find?_eq_some hfind)

theorem exists_lastPut?_iff {puts : List (String × Document)} {id : String} :
    (∃ document, lastPut? puts id = some document) ↔ id ∈ puts.map Prod.fst := by
  rw [← Option.isSome_iff_exists, lastPut?, Option.isSome_map, List.find?_isSome]
  simp

namespace Store

def putAll (documents : Store) (puts : List (String × Document)) : Store :=
  puts.foldl (fun documents pair ↦ (documents.putDocument pair.1 pair.2).2) documents

/-- The store holds the documents put last, and no call of it fails. -/
structure Keeps (documents : Store) (puts : List (String × Document)) : Prop where
  entry : ∀ key body, documents.entries.get? key = some body ↔
    ∃ id document, lastPut? puts id = some document ∧ Utf8.encode id = key ∧
      (Json.object document).bytes = body
  reliable : documents.Reliable

section keeps

variable {documents : Store} {puts : List (String × Document)}

/-- A document that is put is kept, in place of the one with its id. -/
theorem Keeps.put (h : documents.Keeps puts) (pair : String × Document) :
    (documents.putDocument pair.1 pair.2).1 = .ok () ∧
      (documents.putDocument pair.1 pair.2).2.Keeps (puts ++ [pair]) := by
  obtain ⟨after, hfollows, ⟨hput, hentries⟩ | ⟨hspared, -⟩⟩ :=
    documents.putDocument_cases pair.1 pair.2
  · rw [hput]
    refine ⟨rfl, ?_, hfollows.reliable h.reliable⟩
    intro key body
    rw [hentries, OrderedMap.get?_insert]
    simp only [lastPut?_append]
    split
    · rename_i hkey
      subst hkey
      constructor
      · intro hbody
        exact ⟨pair.1, pair.2, if_pos rfl, rfl, Option.some.inj hbody⟩
      · intro hlast
        obtain ⟨id, document, hdocument, hid, rfl⟩ := hlast
        rw [if_pos (Utf8.encode_injective hid).symm] at hdocument
        obtain rfl := Option.some.inj hdocument
        rfl
    · rename_i hkey
      rw [h.entry]
      apply exists_congr
      intro id
      by_cases hid : pair.1 = id
      · subst hid
        simp [hkey]
      · simp only [if_neg hid]
  · exact absurd (.inl h.reliable) hspared

/-- After any puts the store keeps what was put last. -/
theorem keeps_putAll (keyspace : Keyspace) (puts : List (String × Document)) :
    ((empty keyspace).putAll puts).Keeps puts := by
  induction puts using List.reverseRecOn with
  | nil => exact ⟨by simp [putAll, empty, lastPut?], reliable_empty keyspace⟩
  | append_singleton puts pair ih =>
    have hrun : (empty keyspace).putAll (puts ++ [pair]) =
        (((empty keyspace).putAll puts).putDocument pair.1 pair.2).2 := List.foldl_append ..
    rw [hrun]
    exact (ih.put pair).2

theorem Keeps.get?_encode (h : documents.Keeps puts) (id : String) :
    documents.entries.get? (Utf8.encode id) =
      (lastPut? puts id).map fun document ↦ (Json.object document).bytes := by
  apply Option.ext
  intro body
  rw [h.entry, Option.map_eq_some_iff]
  constructor
  · intro hlast
    obtain ⟨other, document, hdocument, hid, hbody⟩ := hlast
    exact ⟨document, Utf8.encode_injective hid ▸ hdocument, hbody⟩
  · intro hlast
    obtain ⟨document, hdocument, hbody⟩ := hlast
    exact ⟨id, document, hdocument, rfl, hbody⟩

/-- There are as many entries as ids. -/
theorem Keeps.size_eq (h : documents.Keeps puts) :
    documents.size = (puts.map Prod.fst).toFinset.card := by
  apply OrderedMap.size_eq_card fun _ _ ↦ Utf8.encode_injective
  intro key
  simp only [h.entry, List.mem_toFinset, ← exists_lastPut?_iff]
  constructor
  · intro hlast
    obtain ⟨body, id, document, hdocument, hid, -⟩ := hlast
    exact ⟨id, ⟨document, hdocument⟩, hid⟩
  · intro hlast
    obtain ⟨id, ⟨document, hdocument⟩, hid⟩ := hlast
    exact ⟨_, id, document, hdocument, hid, rfl⟩

/-- A scan meets no error and shows the documents put last, in the order of the bytes of their
ids. -/
theorem Keeps.storedDocuments_eq (h : documents.Keeps puts) :
    ∃ found : List StoredDocument, documents.storedDocuments = found.map .ok ∧
      found.Pairwise (fun a b ↦ Utf8.encode a.id < Utf8.encode b.id) ∧
      ∀ stored, stored ∈ found ↔ ∃ document, lastPut? puts stored.id = some document ∧
        (Json.object document).bytes = stored.body := by
  have hnone (error : Error) : .error error ∉ documents.storedDocuments := by
    rw [storedDocuments_of_reliable h.reliable]
    intro hmem
    obtain ⟨entry, hentry, herror⟩ := List.mem_map.mp hmem
    obtain ⟨fault, hfault⟩ := StoredDocument.ofEntry_eq_error_iff.mp ⟨error, herror⟩
    obtain ⟨id, document, -, hid, -⟩ := (h.entry _ _).mp (OrderedMap.mem_entries_iff.mp hentry)
    rw [← hid, Utf8.decode_encode] at hfault
    cases hfault
  cases hgather : (gather documents.storedDocuments).1 with
  | error error =>
    obtain ⟨error, herror⟩ := gather_eq_error_iff.mp ⟨error, hgather⟩
    exact absurd herror (hnone error)
  | ok found =>
    have hfound := gather_eq_ok_iff.mp hgather
    have hmem (stored : StoredDocument) :
        stored ∈ found ↔ .ok stored ∈ documents.storedDocuments := by simp [hfound]
    refine ⟨found, hfound, ?_, ?_⟩
    · have hpairs := documents.pairwise_storedDocuments
      rw [hfound, List.pairwise_map] at hpairs
      apply hpairs.imp
      intro a b hlt
      exact Utf8.encode_lt_encode.mpr (hlt a b rfl rfl)
    · intro stored
      rw [hmem, ← Option.map_eq_some_iff, ← h.get?_encode]
      apply Iff.intro get?_of_mem_storedDocuments
      intro hbody
      rcases mem_storedDocuments_or_error hbody with hstored | ⟨error, herror⟩
      · exact hstored
      · exact absurd herror (hnone error)

end keeps

/-- Every call tells of the documents put last: each id has its own, ids without one are not found,
and a scan shows each document once, in the order of the bytes of the ids. -/
structure Recalls (documents : Store) (puts : List (String × Document)) : Prop where
  get : ∀ id, (documents.getDocument id).1 = (lastPut? puts id).elim (.error (.notFound id)) .ok
  has : ∀ id, (documents.hasDocument id).1 = .ok (lastPut? puts id).isSome
  count : (documents.countDocuments).1 = .ok (puts.map Prod.fst).toFinset.card
  scan : ∃ found : List StoredDocument, documents.storedDocuments = found.map .ok ∧
    found.Pairwise (fun a b ↦ Utf8.encode a.id < Utf8.encode b.id) ∧
    (∀ id, id ∈ found.map (·.id) ↔ id ∈ puts.map Prod.fst) ∧
    ∀ stored ∈ found, ∃ document, lastPut? puts stored.id = some document ∧
      stored.document = .ok document
  pathValues : ∀ id document, lastPut? puts id = some document →
    (documents.getDocument id).1.map Document.pathValues = .ok document.pathValues

/-- Conversely, what is recalled has been read back from its text. -/
theorem Recalls.decodeBody_bytes {puts : List (String × Document)}
    (h : ((empty .documents).putAll puts).Recalls puts) {id : String} {document : Document}
    (hlast : lastPut? puts id = some document) :
    decodeBody (Json.object document).bytes = .ok document := by
  have hkeeps := keeps_putAll .documents puts
  have hget := h.get id
  rw [getDocument_of_reliable hkeeps.reliable, documentAt, hkeeps.get?_encode, hlast] at hget
  exact hget

/-- A store recalls what was put, provided that the texts are read back. -/
theorem recalls_of_decodeBody {puts : List (String × Document)}
    (hread : ∀ id document, lastPut? puts id = some document →
      decodeBody (Json.object document).bytes = .ok document) :
    ((empty .documents).putAll puts).Recalls puts := by
  have hkeeps := keeps_putAll .documents puts
  have hget (id : String) : (((empty .documents).putAll puts).getDocument id).1 =
      (lastPut? puts id).elim (.error (.notFound id)) .ok := by
    rw [getDocument_of_reliable hkeeps.reliable, documentAt, hkeeps.get?_encode]
    cases hlast : lastPut? puts id with
    | none => rfl
    | some document => exact hread id document hlast
  constructor
  case get => exact hget
  case has =>
    intro id
    rw [hasDocument_of_reliable hkeeps.reliable, hkeeps.get?_encode, Option.isSome_map]
  case count => rw [countDocuments_of_reliable hkeeps.reliable, hkeeps.size_eq]
  case scan =>
    obtain ⟨found, hfound, hascending, hmem⟩ := hkeeps.storedDocuments_eq
    refine ⟨found, hfound, hascending, ?_, ?_⟩
    · intro id
      rw [← exists_lastPut?_iff, List.mem_map]
      constructor
      · intro hstored
        obtain ⟨stored, hstored, rfl⟩ := hstored
        obtain ⟨document, hlast, -⟩ := (hmem stored).mp hstored
        exact ⟨document, hlast⟩
      · intro hlast
        obtain ⟨document, hlast⟩ := hlast
        exact ⟨⟨id, (Json.object document).bytes⟩, (hmem _).mpr ⟨document, hlast, rfl⟩, rfl⟩
    · intro stored hstored
      obtain ⟨document, hlast, hbody⟩ := (hmem stored).mp hstored
      have hdocument := hread stored.id document hlast
      rw [hbody] at hdocument
      exact ⟨document, hlast, hdocument⟩
  case pathValues =>
    intro id document hlast
    rw [hget, hlast]
    rfl

/-- Documents without double-precision numbers that are not nested too deeply are told again as they
were put if and only if no object inside those put last begins with the mark. -/
theorem putAll_recalls {puts : List (String × Document)}
    (hputs : ∀ pair ∈ puts, (Json.object pair.2).Canonical ∧ (Json.object pair.2).IntegersOnly ∧
      (Json.object pair.2).depth ≤ Json.maxDepth) :
    ((empty .documents).putAll puts).Recalls puts ↔
      ∀ id document, lastPut? puts id = some document → Json.UnmarkedMembers document := by
  have hiff {id : String} {document : Document} (hlast : lastPut? puts id = some document) :
      decodeBody (Json.object document).bytes = .ok document ↔ Json.UnmarkedMembers document := by
    obtain ⟨hcanonical, hintegers, hdepth⟩ := hputs _ (mem_of_lastPut? hlast)
    exact Json.decodeBody_bytes_eq_self_iff hcanonical hintegers hdepth
  constructor
  · intro hrecalls id document hlast
    exact (hiff hlast).mp (hrecalls.decodeBody_bytes hlast)
  · intro hunmarked
    apply recalls_of_decodeBody
    intro id document hlast
    exact (hiff hlast).mpr (hunmarked id document hlast)

/-- Both ends of the integers, escapes, text outside ASCII, empty containers, and an id twice. -/
def repeatedPuts : List (String × Document) :=
  [("é", [("n", .number (.integer (2 ^ 64 - 1)))]), ("", [("a", .array [.object [], .null])]),
    ("é", [("\"\n", .string "\u0001\\"), ("😀", .number (.integer (-2 ^ 63)))])]

theorem putAll_recalls_repeated :
    ((empty .documents).putAll repeatedPuts).Recalls repeatedPuts := by
  refine (putAll_recalls ?_).mpr ?_
  · intro pair hmem
    simp only [repeatedPuts, List.mem_cons, List.not_mem_nil, or_false] at hmem
    rcases hmem with rfl | rfl | rfl
    · exact ⟨⟨nofun, ⟨by decide, by decide⟩, trivial⟩, ⟨trivial, trivial⟩, by decide⟩
    · exact ⟨⟨nofun, ⟨trivial, trivial, trivial⟩, trivial⟩, ⟨⟨trivial, trivial, trivial⟩, trivial⟩,
        by decide⟩
    · refine ⟨⟨?_, trivial, nofun, ⟨by decide, by decide⟩, trivial⟩, ⟨trivial, trivial, trivial⟩,
        by decide⟩
      decide
  · intro id document hlast
    have hmem := mem_of_lastPut? hlast
    simp only [repeatedPuts, List.mem_cons, List.not_mem_nil, or_false, Prod.mk.injEq] at hmem
    rcases hmem with ⟨-, rfl⟩ | ⟨-, rfl⟩ | ⟨-, rfl⟩
    · exact ⟨trivial, trivial⟩
    · exact ⟨⟨⟨rfl, trivial⟩, trivial, trivial⟩, trivial⟩
    · exact ⟨trivial, trivial, trivial⟩

/-- A document with a marked object inside is stored and cannot be read again. -/
theorem not_recalls_marked :
    (Json.object Json.markedDocument).Canonical ∧ (Json.object Json.markedDocument).IntegersOnly ∧
      (Json.object Json.markedDocument).depth ≤ Json.maxDepth ∧
      ¬ ((empty .documents).putAll [("x", Json.markedDocument)]).Recalls
        [("x", Json.markedDocument)] := by
  refine ⟨Json.canonical_markedDocument, Json.integersOnly_markedDocument, by decide, ?_⟩
  intro hrecalls
  have hlast : lastPut? [("x", Json.markedDocument)] "x" = some Json.markedDocument := rfl
  exact Json.decodeBody_markedDocument (hrecalls.decodeBody_bytes hlast)

end Store

end PathStore
