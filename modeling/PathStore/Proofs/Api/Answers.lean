import PathStore.Proofs.Api.Records
import PathStore.Proofs.Api.Service
import PathStore.Proofs.Database.Readable
import PathStore.Proofs.Json.Parsed

/-!
# Reading the answers

Documents are posted, and the answers to later requests are read by the records that they are
written from.  What comes back is what was posted, and what a search has found, as long as the
documents leave room for the brackets around them: an answer with a document opens two of its own,
and the answer to a search four.  An answer that goes deeper is sent all the same, and cannot be
read.  A document with a marked object inside has been sorted since it was posted, and is not sent
at all.  The stores may fail at any time; only answers of success are looked at.
-/

namespace PathStore

structure Post where
  id : String
  body : Bytes

/-- The document is the one that has been posted, under its id. -/
def Post.IsOf (post : Post) (pair : String × Document) : Prop :=
  pair.1 = post.id ∧ Json.parse post.body = .ok (.object pair.2)

theorem exists_mem_left_of_forall₂ {α β : Type} {R : α → β → Prop} {xs : List α} {ys : List β}
    (h : List.Forall₂ R xs ys) : ∀ y ∈ ys, ∃ x ∈ xs, R x y := by
  induction h with
  | nil => exact nofun
  | cons hhead _ ih =>
    refine List.forall_mem_cons.mpr ⟨⟨_, List.mem_cons_self, hhead⟩, ?_⟩
    intro y hy
    obtain ⟨x, hx, hxy⟩ := ih y hy
    exact ⟨x, List.mem_cons_of_mem _ hx, hxy⟩

namespace Database

def responseTo (db : Database) (target body : Bytes) (freshId : String) (duration : Duration) :
    Response :=
  (db.respond ⟨.get, target, body⟩ freshId duration).1

def post (db : Database) (post : Post) : Response × Database :=
  db.respond ⟨.post, documentsTarget, post.body⟩ post.id ⟨0⟩

def postAll (db : Database) (posts : List Post) : Database :=
  posts.foldl (fun db post ↦ (db.post post).2) db

/-- Every document that is posted is answered with success. -/
def AcceptsAll (db : Database) : List Post → Prop
  | [] => True
  | post :: posts => (db.post post).1.status = 200 ∧ (db.post post).2.AcceptsAll posts

/-- A document that is accepted is stored. -/
theorem post_accepted {db : Database} {post : Post} (h : (db.post post).1.status = 200) :
    ∃ document, post.IsOf (post.id, document) ∧ (db.post post).2.documents.entries =
      db.documents.entries.insert (Utf8.encode post.id) (Json.object document).bytes := by
  rw [Database.post, respond_post] at h ⊢
  by_cases hlimit : bodyLimit < post.body.length
  · rw [respondAdd, if_pos hlimit] at h
    cases h
  · cases hparse : Json.parse post.body with
    | error error =>
      rw [respondAdd, if_neg hlimit, hparse] at h
      cases h
    | ok value =>
      rw [respondAdd_of_parse post.id (Nat.not_lt.mp hlimit) hparse] at h ⊢
      obtain ⟨result, after, hadd, ⟨⟨error, rfl⟩, -⟩ |
        ⟨rfl, document, hdocument, hentries, -⟩⟩ := db.add_effect post.id value
      · rw [hadd] at h
        cases h
      · rw [hadd]
        obtain rfl := Json.asDocument?_eq_some_iff.mp hdocument
        exact ⟨document, ⟨rfl, hparse⟩, hentries⟩

/-- The store holds the documents that have been posted and those that were there before. -/
theorem entries_postAll {posts : List Post} {db : Database} (h : db.AcceptsAll posts)
    (hdistinct : (posts.map Post.id).Nodup) {stored : List (String × Document)}
    (hstored : ∀ key body, db.documents.entries.get? key = some body ↔
      ∃ pair ∈ stored, storedEntry pair = (key, body))
    (hnew : ∀ pair ∈ stored, pair.1 ∉ posts.map Post.id) :
    ∃ documents, List.Forall₂ Post.IsOf posts documents ∧
      ∀ key body, (db.postAll posts).documents.entries.get? key = some body ↔
        ∃ pair ∈ documents.reverse ++ stored, storedEntry pair = (key, body) := by
  -- A document that is accepted is put in front of those stored, so these come out reversed.
  induction posts generalizing db stored with
  | nil => exact ⟨[], .nil, hstored⟩
  | cons post posts ih =>
    obtain ⟨haccepted, hposts⟩ := h
    obtain ⟨hid, hdistinct⟩ := List.nodup_cons.mp hdistinct
    obtain ⟨document, hof, hentries⟩ := post_accepted haccepted
    have hother : ∀ pair ∈ stored, pair.1 ≠ post.id := by
      intro pair hpair heq
      exact hnew pair hpair (heq ▸ List.mem_cons_self)
    have hstored' : ∀ key body, (db.post post).2.documents.entries.get? key = some body ↔
        ∃ pair ∈ (post.id, document) :: stored, storedEntry pair = (key, body) := by
      rw [hentries]
      exact get?_insert_storedEntry_iff hstored hother
    have hnew' : ∀ pair ∈ (post.id, document) :: stored, pair.1 ∉ posts.map Post.id := by
      refine List.forall_mem_cons.mpr ⟨hid, ?_⟩
      intro pair hpair hmem
      exact hnew pair hpair (List.mem_cons_of_mem _ hmem)
    obtain ⟨documents, hdocuments, hall⟩ := ih hposts hdistinct hstored' hnew'
    refine ⟨(post.id, document) :: documents, .cons hof hdocuments, ?_⟩
    rw [List.reverse_cons, List.append_assoc, List.singleton_append]
    exact hall

end Database

/-- The compact text as a string has the bytes of the value. -/
theorem Json.encode_compact (value : Json) : Utf8.encode value.compact = value.bytes := by
  rw [Json.compact, Utf8.encode, String.toList_ofList, Json.bytes]

/-- The answer is one of success, and its text is read as the result in its envelope if the
condition holds; otherwise the text cannot be read. -/
structure Response.CarriesWhen {α : Type} (response : Response) (codec : Json.Codec α) (result : α)
    (condition : Prop) : Prop where
  status : response.status = 200
  read : condition →
    (Envelope.format codec).codec.decode (Utf8.encode response.body) = .ok (.ok result)
  unread : ¬ condition →
    ∃ error, (Envelope.format codec).codec.decode (Utf8.encode response.body) = .error error

/-- An answer carries what it is written from, if the result settles with the room that the envelope
leaves. -/
theorem Response.carriesWhen_accepted {α : Type} {codec : Json.Codec α} {result : α}
    {condition : Prop} (h : Json.Settles (codec.read 126) (codec.write result) result condition)
    {members : Document} (hobject : codec.write result = .object members) :
    (accepted (codec.write result)).CarriesWhen codec result condition := by
  have hbody : Utf8.encode (accepted (codec.write result)).body =
      ((Envelope.format codec).write (.ok result)).bytes :=
    Json.encode_compact _
  obtain ⟨hread, hunread⟩ := Envelope.decode_write h hobject
  rw [← hbody] at hread hunread
  exact ⟨rfl, hread, hunread⟩

namespace Database

/-- The documents on the list are stored and nothing else is, and they come from a text. -/
structure HoldsAll (db : Database) (documents : List (String × Document)) : Prop where
  entry : ∀ key body, db.documents.entries.get? key = some body ↔
    ∃ pair ∈ documents, storedEntry pair = (key, body)
  canonical : ∀ pair ∈ documents, (Json.object pair.2).Canonical
  integersOnly : ∀ pair ∈ documents, (Json.object pair.2).IntegersOnly
  unmarked : ∀ pair ∈ documents, Json.MarksReadableMembers pair.2 → Json.UnmarkedMembers pair.2

section answers

variable {db : Database} {documents : List (String × Document)}

/-- A document that comes from a text is read back as it was if its depth and the marks inside it
allow it. -/
theorem HoldsAll.isFaithful_iff (h : db.HoldsAll documents) {pair : String × Document}
    (hmem : pair ∈ documents) :
    Document.IsFaithful pair.2 ↔
      (Json.object pair.2).depth ≤ Json.maxDepth ∧ Json.UnmarkedMembers pair.2 := by
  constructor
  · intro hfaithful
    exact ⟨hfaithful.depth, hfaithful.unmarked⟩
  · intro hreadable
    exact ⟨h.canonical pair hmem, h.integersOnly pair hmem, hreadable.2, hreadable.1⟩

/-- A document that comes from a text is read back as it was, or it cannot be read. -/
theorem HoldsAll.isFaithful_of_decodeBody (h : db.HoldsAll documents) {pair : String × Document}
    (hmem : pair ∈ documents) {found : Document}
    (hfound : decodeBody (Json.object pair.2).bytes = .ok found) : Document.IsFaithful pair.2 := by
  have hreadable := (Json.decodeBody_eq_ok_iff (h.canonical pair hmem)).mp ⟨found, hfound⟩
  exact (h.isFaithful_iff hmem).mpr ⟨hreadable.depth, h.unmarked pair hmem hreadable.marks⟩

/-- Of the documents on the list, the store holds those that can be read back. -/
theorem HoldsAll.holds_iff (h : db.HoldsAll documents) {id : String} {document : Document} :
    db.documents.Holds id document ↔ (id, document) ∈ documents ∧ Document.IsFaithful document := by
  constructor
  · intro hholds
    obtain ⟨body, hget, hbody⟩ := hholds
    obtain ⟨pair, hmem, hentry⟩ := (h.entry _ _).mp hget
    obtain ⟨hid, rfl⟩ := Prod.mk.inj hentry
    obtain rfl := Utf8.encode_injective hid
    have hfaithful := h.isFaithful_of_decodeBody hmem hbody
    obtain rfl := Except.ok.inj (hfaithful.decodeBody_bytes.symm.trans hbody)
    exact ⟨hmem, hfaithful⟩
  · intro hstored
    obtain ⟨hmem, hfaithful⟩ := hstored
    exact ⟨_, (h.entry _ _).mpr ⟨_, hmem, rfl⟩, hfaithful.decodeBody_bytes⟩

/-- The answer to a search, for any search that succeeds. -/
theorem HoldsAll.carries_search (h : db.HoldsAll documents) (hcount : documents.length < 2 ^ 64)
    {text : String} {skipIndex : Option String} {duration : Duration} {outcome : SearchOutcome}
    (houtcome : (db.search text (skipIndex ≠ some "true") duration).1 = .ok outcome)
    (body : Bytes) (freshId : String) :
    (db.responseTo (searchTarget text skipIndex) body freshId duration).CarriesWhen
      SearchResponse.format.codec (.ofOutcome outcome)
      (∀ hit ∈ outcome.hits, (Json.object hit.body).depth ≤ 123) := by
  obtain ⟨hnodup, hholds⟩ := holds_of_search houtcome
  have hstored : ∀ hit ∈ outcome.hits,
      (hit.id, hit.body) ∈ documents ∧ Document.IsFaithful hit.body := by
    intro hit hmem
    exact h.holds_iff.mp (hholds hit hmem)
  have hids : outcome.hits.map (·.id) ⊆ documents.map Prod.fst := by
    intro id hid
    obtain ⟨hit, hmem, rfl⟩ := List.mem_map.mp hid
    exact List.mem_map_of_mem (hstored hit hmem).1
  have hlength := hnodup.length_le_of_subset hids
  rw [List.length_map, List.length_map] at hlength
  have hsettles : Json.Settles (SearchResponse.format.codec.read 126)
      (SearchResponse.format.codec.write (.ofOutcome outcome)) (.ofOutcome outcome)
      (∀ hit ∈ outcome.hits, (Json.object hit.body).depth ≤ 123) :=
    SearchResponse.settles (fun hit hmem ↦ (hstored hit hmem).2)
      (Nat.lt_of_le_of_lt hlength hcount) 123
  have hcarries := Response.carriesWhen_accepted hsettles rfl
  rw [responseTo, respond_search, answer_of_ok houtcome]
  exact hcarries

/-- A document that is sent can be read back from the store. -/
theorem HoldsAll.isFaithful_of_status (h : db.HoldsAll documents) {id : String}
    {document : Document} (hmem : (id, document) ∈ documents) (hid : id ≠ "") {body : Bytes}
    {freshId : String} {duration : Duration}
    (hstatus : (db.responseTo (documentTarget id) body freshId duration).status = 200) :
    (db.get id).1 = .ok document ∧ Document.IsFaithful document := by
  rw [responseTo, respond_document db freshId duration hid] at hstatus
  have hget : (db.get id).1 = (db.documents.getDocument id).1 := rfl
  have hentry := (h.entry (Utf8.encode id) _).mpr ⟨(id, document), hmem, rfl⟩
  obtain ⟨after, -, hfound | ⟨-, fault, hfault⟩⟩ := db.documents.getDocument_cases id
  · cases hbody : decodeBody (Json.object document).bytes with
    | ok found =>
      have hfaithful := h.isFaithful_of_decodeBody hmem hbody
      have hdocument := Store.documentAt_eq_ok_iff.mpr (h.holds_iff.mpr ⟨hmem, hfaithful⟩)
      rw [hget, hfound]
      exact ⟨hdocument, hfaithful⟩
    | error error =>
      have herror : (db.get id).1 = .error error := by
        rw [hget, hfound, Store.documentAt, hentry]
        exact hbody
      rw [answer_of_error herror] at hstatus
      cases hstatus
  · have herror : (db.get id).1 = .error (.store fault) := by rw [hget, hfault]
    rw [answer_of_error herror] at hstatus
    cases hstatus

/-- What the answer to asking for a document holds. -/
theorem HoldsAll.carries_document (h : db.HoldsAll documents) {id : String} {document : Document}
    (hmem : (id, document) ∈ documents) (hid : id ≠ "") {body : Bytes} {freshId : String}
    {duration : Duration}
    (hstatus : (db.responseTo (documentTarget id) body freshId duration).status = 200) :
    (db.responseTo (documentTarget id) body freshId duration).CarriesWhen
      DocumentResponse.format.codec ⟨document⟩ ((Json.object document).depth ≤ 125) := by
  obtain ⟨hget, hfaithful⟩ := h.isFaithful_of_status hmem hid hstatus
  have hsettles : Json.Settles (DocumentResponse.format.codec.read 126)
      (DocumentResponse.format.codec.write ⟨document⟩) ⟨document⟩
      ((Json.object document).depth ≤ 125) :=
    DocumentResponse.settles hfaithful 125
  have hcarries := Response.carriesWhen_accepted hsettles rfl
  rw [responseTo, respond_document db freshId duration hid, answer_of_ok hget]
  exact hcarries

/-- Where the store does not fail, the documents that are sent are those that can be read. -/
theorem HoldsAll.status_eq_ok_iff (h : db.HoldsAll documents) {id : String} {document : Document}
    (hmem : (id, document) ∈ documents) (hid : id ≠ "")
    (hgets : db.documents.gets.failsNext = false) (body : Bytes) (freshId : String)
    (duration : Duration) :
    (db.responseTo (documentTarget id) body freshId duration).status = 200 ↔
      (Json.object document).depth ≤ Json.maxDepth ∧ Json.UnmarkedMembers document := by
  rw [← h.isFaithful_iff hmem]
  constructor
  · intro hstatus
    exact (h.isFaithful_of_status hmem hid hstatus).2
  · intro hfaithful
    have hget : (db.get id).1 = .ok document :=
      (Store.getDocument_of_not_failsNext hgets id).trans
        (Store.documentAt_eq_ok_iff.mpr (h.holds_iff.mpr ⟨hmem, hfaithful⟩))
    rw [responseTo, respond_document db freshId duration hid, answer_of_ok hget]
    rfl

end answers

/-- What has been posted is what the store holds. -/
theorem holdsAll_postAll {db : Database} (hfresh : db.Fresh) {posts : List Post}
    (haccepted : db.AcceptsAll posts) (hdistinct : (posts.map Post.id).Nodup)
    (hintegers : ∀ post ∈ posts, ∀ document, Json.parse post.body = .ok (.object document) →
      (Json.object document).IntegersOnly) :
    ∃ documents, List.Forall₂ Post.IsOf posts documents ∧
      (db.postAll posts).HoldsAll documents := by
  have hempty : ∀ key body, db.documents.entries.get? key = some body ↔
      ∃ pair ∈ [], storedEntry pair = (key, body) := by
    rw [hfresh.documents]
    simp
  obtain ⟨documents, hposted, hentries⟩ :=
    entries_postAll haccepted hdistinct hempty (List.forall_mem_nil _)
  have hparsed := exists_mem_left_of_forall₂ hposted
  refine ⟨documents, hposted, ?_⟩
  constructor
  case entry =>
    intro key body
    rw [hentries]
    simp
  case canonical =>
    intro pair hpair
    obtain ⟨post, hpost, -, hparse⟩ := hparsed pair hpair
    exact Json.holds_of_parse Json.inherited_formed hparse (hintegers post hpost _ hparse)
  case integersOnly =>
    intro pair hpair
    obtain ⟨post, hpost, -, hparse⟩ := hparsed pair hpair
    exact hintegers post hpost _ hparse
  case unmarked =>
    intro pair hpair hmarks
    obtain ⟨post, -, -, hparse⟩ := hparsed pair hpair
    have hmembers := Json.members_of_parse Json.inherited_unmarked hparse
    rw [Json.marksReadableMembers_iff] at hmarks
    rw [Json.unmarkedMembers_iff]
    intro member hmember
    exact hmembers.value member hmember (hmarks member hmember)

/-- Documents whose numbers are integers have been posted with success.  Unless the store fails,
one of them is sent if and only if it is nested no deeper than the reader follows and no object
inside it begins with the mark.  What is sent is read as that document if it is nested at most 125
deep, and the answer to a search that succeeds is read as what the search has found if the
documents found are nested at most 123 deep.  What goes deeper is sent too, but cannot be read. -/
theorem posted_answers_carry {db : Database} (hfresh : db.Fresh) {posts : List Post}
    (haccepted : db.AcceptsAll posts) (hdistinct : (posts.map Post.id).Nodup)
    (hnamed : ∀ post ∈ posts, post.id ≠ "") (hcount : posts.length < 2 ^ 64)
    (hintegers : ∀ post ∈ posts, ∀ document, Json.parse post.body = .ok (.object document) →
      (Json.object document).IntegersOnly) :
    (∀ post ∈ posts, ∃ document, Json.parse post.body = .ok (.object document) ∧
      ∀ body freshId duration,
        ((db.postAll posts).documents.gets.failsNext = false →
          (((db.postAll posts).responseTo (documentTarget post.id) body freshId
              duration).status = 200 ↔
            (Json.object document).depth ≤ Json.maxDepth ∧ Json.UnmarkedMembers document)) ∧
        (((db.postAll posts).responseTo (documentTarget post.id) body freshId
            duration).status = 200 →
          ((db.postAll posts).responseTo (documentTarget post.id) body freshId
            duration).CarriesWhen DocumentResponse.format.codec ⟨document⟩
            ((Json.object document).depth ≤ 125))) ∧
      ∀ text skipIndex body freshId duration outcome,
        ((db.postAll posts).search text (skipIndex ≠ some "true") duration).1 = .ok outcome →
          ((db.postAll posts).responseTo (searchTarget text skipIndex) body freshId
            duration).CarriesWhen SearchResponse.format.codec (.ofOutcome outcome)
            (∀ hit ∈ outcome.hits, (Json.object hit.body).depth ≤ 123) := by
  obtain ⟨documents, hposted, hholds⟩ := holdsAll_postAll hfresh haccepted hdistinct hintegers
  constructor
  · intro post hpost
    obtain ⟨pair, hpair, hid, hparse⟩ := exists_mem_left_of_forall₂ hposted.flip post hpost
    have hmem : (post.id, pair.2) ∈ documents := hid ▸ hpair
    refine ⟨pair.2, hparse, ?_⟩
    intro body freshId duration
    constructor
    · intro hgets
      exact hholds.status_eq_ok_iff hmem (hnamed post hpost) hgets body freshId duration
    · exact hholds.carries_document hmem (hnamed post hpost)
  · intro text skipIndex body freshId duration outcome houtcome
    exact hholds.carries_search (hposted.length_eq ▸ hcount) houtcome body freshId

/-- Two documents to post, of which one is empty. -/
def shallowPosts : List Post :=
  [⟨"a", (Json.object twoMembers).bytes⟩, ⟨"b", (Json.object []).bytes⟩]

theorem posted_answers_carry_shallow :
    (empty true).AcceptsAll shallowPosts ∧
      (Envelope.format DocumentResponse.format.codec).codec.decode (Utf8.encode
          (((empty true).postAll shallowPosts).responseTo (documentTarget "a") [] "c" ⟨0⟩).body) =
        .ok (.ok ⟨twoMembers⟩) ∧
      (Envelope.format SearchResponse.format.codec).codec.decode (Utf8.encode
          (((empty true).postAll shallowPosts).responseTo (searchTarget "k:1" none) [] "c"
            ⟨0⟩).body) =
        .ok (.ok ⟨[⟨"a", twoMembers⟩], 1, .index⟩) := by
  have haccepted : (empty true).AcceptsAll shallowPosts := by
    refine ⟨?_, ?_, trivial⟩ <;> decide +kernel
  have hparse : Json.parse (Json.object twoMembers).bytes = .ok (.object twoMembers) := rfl
  have hparse' : Json.parse (Json.object []).bytes = .ok (.object []) := rfl
  have hintegers : ∀ post ∈ shallowPosts, ∀ document,
      Json.parse post.body = .ok (.object document) → (Json.object document).IntegersOnly := by
    intro post hpost document hdocument
    simp only [shallowPosts, List.mem_cons, List.not_mem_nil, or_false] at hpost
    rcases hpost with rfl | rfl
    · obtain rfl := Json.object.inj (Except.ok.inj (hparse.symm.trans hdocument))
      exact ⟨trivial, trivial, trivial⟩
    · obtain rfl := Json.object.inj (Except.ok.inj (hparse'.symm.trans hdocument))
      trivial
  obtain ⟨hdocuments, hsearches⟩ := posted_answers_carry ⟨rfl, rfl⟩ haccepted (by decide)
    (by decide) (by decide) hintegers
  refine ⟨haccepted, ?_, ?_⟩
  · obtain ⟨document, hdocument, hcarries⟩ := hdocuments _ List.mem_cons_self
    obtain rfl := Json.object.inj (Except.ok.inj (hparse.symm.trans hdocument))
    obtain ⟨hstatus, hread⟩ := hcarries [] "c" ⟨0⟩
    have hsent := (hstatus rfl).mpr ⟨by decide, trivial, trivial, trivial⟩
    exact (hread hsent).read (by decide)
  · have houtcome : (((empty true).postAll shallowPosts).search "k:1" true ⟨0⟩).1 =
        .ok ⟨[⟨"a", twoMembers⟩], .index⟩ := rfl
    exact (hsearches "k:1" none [] "c" ⟨0⟩ _ houtcome).read (by decide)

/-- The text of an object in which the mark comes second. -/
def markedText : Bytes :=
  (Json.object [("a", .object [("x", .number (.integer 1)),
    (Json.textMark, .number (.integer 1))])]).bytes

/-- Where the mark does not come first it is a key like others, and then it is sorted to the
front. -/
theorem parse_markedText : Json.parse markedText = .ok (.object Json.markedDocument) := by
  have hone : Json.Reads (Json.value 125) (.number (.integer 1)) (.number (.integer 1)) :=
    Json.takesBack_valueIn Json.parse ⟨by decide, by decide⟩ trivial trivial (Nat.zero_le _)
  have hmembers : List.Forall₂ (Json.ReadsMember (Json.value 125))
      [("x", .number (.integer 1)), (Json.textMark, .number (.integer 1))]
      [("x", .number (.integer 1)), (Json.textMark, .number (.integer 1))] :=
    .cons ⟨rfl, hone⟩ (.cons ⟨rfl, hone⟩ .nil)
  have hinner : Json.Reads (Json.value 126)
      (.object [("x", .number (.integer 1)), (Json.textMark, .number (.integer 1))])
      (.object [(Json.textMark, .number (.integer 1)), ("x", .number (.integer 1))]) :=
    Json.reads_object rfl hmembers
  have hmember : List.Forall₂ (Json.ReadsMember (Json.value 126))
      [("a", .object [("x", .number (.integer 1)), (Json.textMark, .number (.integer 1))])]
      Json.markedDocument :=
    .cons ⟨rfl, hinner⟩ .nil
  have houter : Json.Reads (Json.value Json.maxDepth)
      (.object [("a", .object [("x", .number (.integer 1)),
        (Json.textMark, .number (.integer 1))])]) (.object Json.markedDocument) :=
    Json.reads_object rfl hmember
  rw [markedText, Json.parse_eq_readWhole, Json.readWhole_of_reads houter]

theorem integersOnly_nested (n : Nat) : (nested n).IntegersOnly := by
  induction n with
  | zero => trivial
  | succ n ih => exact ⟨ih, trivial⟩

theorem unmarked_nested (n : Nat) : (nested n).Unmarked := by
  induction n with
  | zero => trivial
  | succ n ih => exact ⟨ih, trivial⟩

/-- A document that can be posted, but leaves no room for an answer. -/
def deepDocument : Document :=
  [("k", nested 124)]

theorem parse_deepDocument :
    Json.parse (Json.object deepDocument).bytes = .ok (.object deepDocument) := by
  have hcanonical : (Json.object deepDocument).Canonical := ⟨nofun, canonical_nested 124, trivial⟩
  have hintegers : (Json.object deepDocument).IntegersOnly := ⟨integersOnly_nested 124, trivial⟩
  have hunmarked : (Json.object deepDocument).Unmarked := ⟨rfl, unmarked_nested 124, trivial⟩
  exact Json.parse_bytes hcanonical hintegers hunmarked (by decide +kernel)

/-- Two documents to post, of which one is sent back and cannot be read, and one is not sent. -/
def unreadPosts : List Post :=
  [⟨"a", (Json.object deepDocument).bytes⟩, ⟨"b", markedText⟩]

theorem parse_unreadPosts : ∀ post ∈ unreadPosts, ∃ document,
    Json.parse post.body = .ok (.object document) ∧ (Json.object document).IntegersOnly := by
  intro post hpost
  simp only [unreadPosts, List.mem_cons, List.not_mem_nil, or_false] at hpost
  rcases hpost with rfl | rfl
  · exact ⟨deepDocument, parse_deepDocument, integersOnly_nested 124, trivial⟩
  · exact ⟨Json.markedDocument, parse_markedText, Json.integersOnly_markedDocument⟩

/-- Both are accepted.  The answer with the one cannot be read, and the other is refused. -/
theorem not_carried_unread :
    (∀ post ∈ unreadPosts, ∃ document, Json.parse post.body = .ok (.object document) ∧
      (Json.object document).IntegersOnly) ∧
    (empty true).AcceptsAll unreadPosts ∧
      (((empty true).postAll unreadPosts).responseTo (documentTarget "a") [] "c" ⟨0⟩).status =
        200 ∧
      (∃ error, (Envelope.format DocumentResponse.format.codec).codec.decode (Utf8.encode
        (((empty true).postAll unreadPosts).responseTo (documentTarget "a") [] "c" ⟨0⟩).body) =
          .error error) ∧
      (((empty true).postAll unreadPosts).responseTo (documentTarget "b") [] "c" ⟨0⟩).status =
        400 := by
  have haccepted : (empty true).AcceptsAll unreadPosts :=
    ⟨by decide +kernel, by decide +kernel, trivial⟩
  have hintegers : ∀ post ∈ unreadPosts, ∀ document,
      Json.parse post.body = .ok (.object document) → (Json.object document).IntegersOnly := by
    intro post hpost document hdocument
    obtain ⟨found, hfound, hintegers⟩ := parse_unreadPosts post hpost
    exact Json.object.inj (Except.ok.inj (hfound.symm.trans hdocument)) ▸ hintegers
  obtain ⟨documents, hposted, hholds⟩ :=
    holdsAll_postAll ⟨rfl, rfl⟩ haccepted (by decide) hintegers
  have hfirst : ⟨"a", (Json.object deepDocument).bytes⟩ ∈ unreadPosts := List.mem_cons_self
  obtain ⟨pair, hpair, hid, hdocument⟩ := exists_mem_left_of_forall₂ hposted.flip _ hfirst
  obtain ⟨id, document⟩ := pair
  obtain rfl : id = "a" := hid
  obtain rfl := Json.object.inj (Except.ok.inj (parse_deepDocument.symm.trans hdocument))
  have hstatus := (hholds.status_eq_ok_iff hpair (by decide) (by decide +kernel) [] "c" ⟨0⟩).mpr
    ⟨by decide +kernel, unmarked_nested 124, trivial⟩
  have hdeep : ¬ (Json.object deepDocument).depth ≤ 125 := by decide +kernel
  exact ⟨parse_unreadPosts, haccepted, hstatus,
    (hholds.carries_document hpair (by decide) hstatus).unread hdeep, by decide +kernel⟩

end Database

end PathStore
