import PathStore.Json.Reader
import PathStore.Proofs.Json.Double
import PathStore.Proofs.Json.Quoted
import PathStore.Proofs.Ordered

/-!
# Reading a value that was written

A reader takes a value back if it finds the value in front of its text, whatever may follow there.
For arrays and objects this comes from their items and members, one step of the reader for each; the
induction over the nesting comes later.
-/

namespace PathStore.Json

theorem canonicalItems_iff {items : List Json} :
    CanonicalItems items ↔ ∀ item ∈ items, item.Canonical := by
  induction items with
  | nil => simp [CanonicalItems]
  | cons item rest ih => simp [CanonicalItems, ih]

/-- Members are canonical just when their keys ascend and their values are canonical. -/
theorem canonicalMembers_iff {members : Document} : CanonicalMembers members ↔
    Entries.Ascending members ∧ ∀ member ∈ members, member.2.Canonical := by
  induction members with
  | nil => simp [CanonicalMembers, Entries.Ascending]
  | cons member rest ih =>
    rw [CanonicalMembers, ih, Entries.Ascending, Entries.Ascending, List.pairwise_cons,
      List.forall_mem_cons]
    tauto

theorem integersOnlyItems_iff {items : List Json} :
    IntegersOnlyItems items ↔ ∀ item ∈ items, item.IntegersOnly := by
  induction items with
  | nil => simp [IntegersOnlyItems]
  | cons item rest ih => simp [IntegersOnlyItems, ih]

theorem integersOnlyMembers_iff {members : Document} :
    IntegersOnlyMembers members ↔ ∀ member ∈ members, member.2.IntegersOnly := by
  induction members with
  | nil => simp [IntegersOnlyMembers]
  | cons member rest ih => simp [IntegersOnlyMembers, ih]

theorem unmarkedItems_iff {items : List Json} :
    UnmarkedItems items ↔ ∀ item ∈ items, item.Unmarked := by
  induction items with
  | nil => simp [UnmarkedItems]
  | cons item rest ih => simp [UnmarkedItems, ih]

theorem unmarkedMembers_iff {members : Document} :
    UnmarkedMembers members ↔ ∀ member ∈ members, member.2.Unmarked := by
  induction members with
  | nil => simp [UnmarkedMembers]
  | cons member rest ih => simp [UnmarkedMembers, ih]

theorem depthItems_le_iff {items : List Json} {room : Nat} :
    depthItems items ≤ room ↔ ∀ item ∈ items, item.depth ≤ room := by
  induction items with
  | nil => simp [depthItems]
  | cons item rest ih => simp [depthItems, ih]

theorem depthMembers_le_iff {members : Document} {room : Nat} :
    depthMembers members ≤ room ↔ ∀ member ∈ members, member.2.depth ≤ room := by
  induction members with
  | nil => simp [depthMembers]
  | cons member rest ih => simp [depthMembers, ih]

/-- An item of an array may begin here. -/
def Begins (bytes : Bytes) : Prop :=
  ∃ b rest, bytes = b :: rest ∧ isBlankByte b = false ∧ b ≠ ']'.toUInt8

theorem Begins.append {bytes : Bytes} (h : Begins bytes) (rest : Bytes) :
    Begins (bytes ++ rest) := by
  obtain ⟨b, more, rfl, hb⟩ := h
  exact ⟨b, more ++ rest, rfl, hb⟩

theorem begins_digitByte {d : Nat} (h : d < 10) (rest : Bytes) : Begins (digitByte d :: rest) := by
  refine ⟨digitByte d, rest, rfl, ?_⟩
  interval_cases d <;> decide

theorem begins_object (members : Document) : Begins (Json.object members).bytes := by
  cases members <;> exact ⟨_, _, rfl, rfl, by decide⟩

/-- The text of a number begins with its sign or with a digit. -/
theorem exists_head_number {n : Number} (h : n.InRange) : ∃ b rest,
    (Json.number n).bytes = b :: rest ∧ (b = '-'.toUInt8 ∨ ∃ d < 10, b = digitByte d) := by
  cases n with
  | double x =>
    rw [bytes, text, Number.text, DecimalLayout.text]
    split
    · exact ⟨_, _, rfl, .inl rfl⟩
    · obtain ⟨d, hd, rest, hrest⟩ := (isReadable_magnitudeText h).exists_digitByte
      exact ⟨_, _, hrest, .inr ⟨d, hd, rfl⟩⟩
  | integer i =>
    rw [bytes, text, Number.text, integerText]
    split
    · exact ⟨_, _, rfl, .inl rfl⟩
    · obtain ⟨d, hd, rest, hrest⟩ := (isWhole_toDigits i.natAbs).exists_digitByte
      exact ⟨_, _, hrest, .inr ⟨d, hd, rfl⟩⟩

/-- The text of a value begins where an item may begin. -/
theorem begins_bytes {value : Json} (h : value.Canonical) : Begins value.bytes := by
  cases value with
  | null => exact ⟨_, _, rfl, rfl, by decide⟩
  | bool b => cases b <;> exact ⟨_, _, rfl, rfl, by decide⟩
  | string s => exact ⟨_, _, rfl, rfl, by decide⟩
  | array items => cases items <;> exact ⟨_, _, rfl, rfl, by decide⟩
  | object members => exact begins_object members
  | number n =>
    obtain ⟨b, rest, hbytes, rfl | ⟨d, hd, rfl⟩⟩ := exists_head_number h
    · exact ⟨_, _, hbytes, rfl, by decide⟩
    · rw [hbytes]
      exact begins_digitByte hd rest

/-- The reader finds something in front of the text of a value. -/
def Reads {α : Type} (reader : Reader α) (value : Json) (found : α) : Prop :=
  ∀ rest, Delimited rest → reader (value.bytes ++ rest) = .ok (found, rest)

/-- The reader finds the value in front of its text. -/
def TakesBack (reader : Reader Json) (value : Json) : Prop :=
  ∀ rest, Delimited rest → reader (value.bytes ++ rest) = .ok (value, rest)

section arrays

variable {α : Type}

theorem anotherItem_close (first : Bool) (rest : Bytes) :
    anotherItem first (']'.toUInt8 :: rest) = .ok (false, ']'.toUInt8 :: rest) :=
  rfl

theorem skipBlanks_of_not_blank {b : UInt8} (h : isBlankByte b = false) (rest : Bytes) :
    skipBlanks (b :: rest) = b :: rest := by
  rw [skipBlanks, List.dropWhile_cons_of_neg (by rw [h]; decide)]

theorem anotherItem_true {bytes : Bytes} (h : Begins bytes) :
    anotherItem true bytes = .ok (true, bytes) := by
  obtain ⟨b, rest, rfl, hblank, hclose⟩ := h
  rw [anotherItem, skipBlanks_of_not_blank hblank]
  simp [hclose]

theorem anotherItem_comma {bytes : Bytes} (h : Begins bytes) :
    anotherItem false (','.toUInt8 :: bytes) = .ok (true, bytes) := by
  obtain ⟨b, rest, rfl, hblank, hclose⟩ := h
  have hcomma : skipBlanks (','.toUInt8 :: b :: rest) = ','.toUInt8 :: b :: rest := rfl
  rw [anotherItem, hcomma]
  dsimp only
  rw [if_neg (by decide), if_neg (by decide), if_pos rfl, skipBlanks_of_not_blank hblank]
  dsimp only
  rw [if_neg hclose]

/-- What follows an item is another one or the end of the array. -/
theorem delimited_itemsText (items : List Json) (rest : Bytes) :
    Delimited (Utf8.encodeChars (itemsText items) ++ rest) := by
  cases items <;> rfl

theorem encodeChars_itemsText_cons (item : Json) (items : List Json) :
    Utf8.encodeChars (itemsText (item :: items)) =
      ','.toUInt8 :: (item.bytes ++ Utf8.encodeChars (itemsText items)) := by
  rw [itemsText, Utf8.encodeChars_cons, Utf8.encodeChars_append]
  rfl

theorem length_itemsText (items : List Json) :
    items.length < (Utf8.encodeChars (itemsText items)).length := by
  induction items with
  | nil => decide
  | cons item items ih =>
    rw [encodeChars_itemsText_cons, List.length_cons, List.length_cons, List.length_append]
    omega

/-- Once another item has been announced, it is read and put in front of those before it. -/
theorem itemsAfter_item {reader : Reader α} {item : Json} {found : α}
    (hreads : Reads reader item found) {done : List α} {bytes rest : Bytes}
    (hmore : anotherItem done.isEmpty bytes = .ok (true, item.bytes ++ rest))
    (hrest : Delimited rest) (step : UInt8) (fuel : Bytes) :
    itemsAfter reader (step :: fuel) done bytes =
      itemsAfter reader fuel (found :: done) rest := by
  rw [itemsAfter, hmore]
  dsimp only
  rw [hreads rest hrest]

theorem anotherItem_itemsText {done : List α} (hdone : done ≠ []) {item : Json}
    (hbegins : Begins item.bytes) (items : List Json) (rest : Bytes) :
    anotherItem done.isEmpty (Utf8.encodeChars (itemsText (item :: items)) ++ rest) =
      .ok (true, item.bytes ++ (Utf8.encodeChars (itemsText items) ++ rest)) := by
  rw [List.isEmpty_eq_false_iff.mpr hdone, encodeChars_itemsText_cons, List.cons_append,
    List.append_assoc, anotherItem_comma (hbegins.append _)]

/-- The items behind a first one are read up to the closing bracket. -/
theorem itemsAfter_itemsText {reader : Reader α} {items : List Json} {founds : List α}
    (hreads : List.Forall₂ (Reads reader) items founds)
    (hbegins : ∀ item ∈ items, Begins item.bytes) {fuel : Bytes}
    (hfuel : items.length < fuel.length) {done : List α} (hdone : done ≠ []) (rest : Bytes) :
    itemsAfter reader fuel done (Utf8.encodeChars (itemsText items) ++ rest) =
      .ok (done.reverse ++ founds, ']'.toUInt8 :: rest) := by
  induction hreads generalizing fuel done with
  | nil =>
    cases fuel with
    | nil => cases hfuel
    | cons step fuel =>
      change itemsAfter reader (step :: fuel) done (']'.toUInt8 :: rest) = _
      rw [itemsAfter, anotherItem_close, List.append_nil]
  | cons hitem hitems ih =>
    obtain ⟨hbegin, hbegins⟩ := List.forall_mem_cons.mp hbegins
    cases fuel with
    | nil => cases hfuel
    | cons step fuel =>
      rw [itemsAfter_item hitem (anotherItem_itemsText hdone hbegin _ rest)
        (delimited_itemsText _ rest), ih hbegins (Nat.lt_of_succ_lt_succ hfuel)
        (List.cons_ne_nil _ done), List.reverse_cons, List.append_assoc, List.singleton_append]

/-- The text of an array behind its opening bracket. -/
def arrayTail : List Json → List Char
  | [] => [']']
  | item :: rest => item.text ++ itemsText rest

variable (α) in
theorem anotherItem_arrayTail {item : Json} (hbegins : Begins item.bytes) (items : List Json)
    (rest : Bytes) :
    anotherItem ([] : List α).isEmpty
        (Utf8.encodeChars (arrayTail (item :: items)) ++ rest) =
      .ok (true, item.bytes ++ (Utf8.encodeChars (itemsText items) ++ rest)) := by
  rw [arrayTail, Utf8.encodeChars_append, List.append_assoc]
  exact anotherItem_true (hbegins.append _)

theorem length_arrayTail {items : List Json} (hbegins : ∀ item ∈ items, Begins item.bytes) :
    items.length < (Utf8.encodeChars (arrayTail items)).length := by
  cases items with
  | nil => decide
  | cons item more =>
    obtain ⟨b, bytes, hbytes, -⟩ := hbegins item List.mem_cons_self
    have hlength := length_itemsText more
    have hitem : 0 < item.bytes.length := by
      rw [hbytes]
      exact Nat.succ_pos _
    rw [arrayTail, Utf8.encodeChars_append, List.length_append, List.length_cons]
    change _ < item.bytes.length + _
    omega

/-- The items of an array are read one by one, whatever the reader makes of each. -/
theorem items_arrayTail {reader : Reader α} {values : List Json} {founds : List α}
    (hreads : List.Forall₂ (Reads reader) values founds)
    (hbegins : ∀ item ∈ values, Begins item.bytes) (rest : Bytes) :
    items reader (Utf8.encodeChars (arrayTail values) ++ rest) = .ok (founds, rest) := by
  cases hreads with
  | nil => rfl
  | @cons item found more others hitem hmore =>
    have hlength := length_arrayTail hbegins
    obtain ⟨hbegin, hbegins⟩ := List.forall_mem_cons.mp hbegins
    have hafter : itemsAfter reader (Utf8.encodeChars (arrayTail (item :: more)) ++ rest) []
        (Utf8.encodeChars (arrayTail (item :: more)) ++ rest) =
        .ok (found :: others, ']'.toUInt8 :: rest) := by
      obtain ⟨step, fuel, hfuel⟩ := List.exists_cons_of_length_pos (Nat.zero_lt_of_lt hlength)
      rw [List.length_cons, hfuel, List.length_cons] at hlength
      nth_rewrite 1 [hfuel]
      rw [List.cons_append, itemsAfter_item hitem (anotherItem_arrayTail α hbegin more rest)
        (delimited_itemsText more rest), itemsAfter_itemsText hmore hbegins ?_
        (List.cons_ne_nil found [])]
      · rfl
      · rw [List.length_append]
        omega
    rw [items, hafter]
    rfl

end arrays

theorem delimited_membersText (members : Document) (rest : Bytes) :
    Delimited (Utf8.encodeChars (membersText members) ++ rest) := by
  cases members <;> rfl

/-- The text of a member and of what comes behind it. -/
theorem encodeChars_member (key : String) (value : Json) (tail : List Char) :
    Utf8.encodeChars (stringText key ++ ':' :: (value.text ++ tail)) =
      '"'.toUInt8 :: (Utf8.encodeChars (key.toList.flatMap escapedChar) ++
        '"'.toUInt8 :: ':'.toUInt8 :: (value.bytes ++ Utf8.encodeChars tail)) := by
  rw [stringText, List.cons_append, Utf8.encodeChars_cons, List.append_assoc,
    List.singleton_append, Utf8.encodeChars_append, Utf8.encodeChars_cons, Utf8.encodeChars_cons,
    Utf8.encodeChars_append]
  rfl

theorem encodeChars_membersText_cons (key : String) (value : Json) (members : Document) :
    Utf8.encodeChars (membersText ((key, value) :: members)) =
      ','.toUInt8 :: '"'.toUInt8 :: (Utf8.encodeChars (key.toList.flatMap escapedChar) ++
        '"'.toUInt8 :: ':'.toUInt8 ::
          (value.bytes ++ Utf8.encodeChars (membersText members))) := by
  rw [membersText, Utf8.encodeChars_cons, encodeChars_member]
  rfl

theorem length_membersText (members : Document) :
    members.length < (Utf8.encodeChars (membersText members)).length := by
  induction members with
  | nil => decide
  | cons member members ih =>
    rw [encodeChars_membersText_cons]
    simp only [List.length_cons, List.length_append]
    omega

theorem anotherMember_true (bytes : Bytes) :
    anotherMember true ('"'.toUInt8 :: bytes) = .ok (true, bytes) :=
  rfl

theorem anotherMember_comma (bytes : Bytes) :
    anotherMember false (','.toUInt8 :: '"'.toUInt8 :: bytes) = .ok (true, bytes) :=
  rfl

/-- A member is found with its key. -/
def ReadsMember (reader : Reader Json) (member found : String × Json) : Prop :=
  found.1 = member.1 ∧ Reads reader member.2 found.2

/-- Once another member has been announced, it is read and put in. -/
theorem membersAfter_member {reader : Reader Json} {key : String} {value found : Json}
    (hreads : Reads reader value found) {first : Bool} {bytes rest : Bytes}
    (hmore : anotherMember first bytes = .ok (true,
      Utf8.encodeChars (key.toList.flatMap escapedChar) ++
        '"'.toUInt8 :: ':'.toUInt8 :: (value.bytes ++ rest)))
    (hrest : Delimited rest) (step : UInt8) (fuel : Bytes) (done : Document) :
    membersAfter reader (step :: fuel) first done bytes =
      membersAfter reader fuel false (Entries.insert done key found) rest := by
  have hcolon : colon (':'.toUInt8 :: (value.bytes ++ rest)) = .ok (value.bytes ++ rest) := rfl
  rw [membersAfter, hmore]
  simp only [bind, Except.bind, quoted_stringText, hcolon, hreads rest hrest]

theorem anotherMember_membersText (key : String) (value : Json) (members : Document)
    (rest : Bytes) :
    anotherMember false (Utf8.encodeChars (membersText ((key, value) :: members)) ++ rest) =
      .ok (true, Utf8.encodeChars (key.toList.flatMap escapedChar) ++ '"'.toUInt8 ::
        ':'.toUInt8 :: (value.bytes ++ (Utf8.encodeChars (membersText members) ++ rest))) := by
  rw [encodeChars_membersText_cons]
  simp only [List.cons_append, List.append_assoc, anotherMember_comma]

/-- The document with the members put in one by one. -/
def insertAll (done members : Document) : Document :=
  members.foldl (fun done member ↦ Entries.insert done member.1 member.2) done

theorem insert_of_forall_lt {entries : Document} {key : String} (value : Json)
    (h : ∀ entry ∈ entries, entry.1 < key) :
    Entries.insert entries key value = entries ++ [(key, value)] := by
  induction entries with
  | nil => rfl
  | cons entry rest ih =>
    rcases entry with ⟨k, v⟩
    obtain ⟨hk, hrest⟩ := List.forall_mem_cons.mp h
    have hnot : ¬ key < k := Std.Asymm.asymm k key hk
    have hne : key ≠ k := by
      intro heq
      exact hnot (heq ▸ hk)
    rw [Entries.insert, if_neg hnot, if_neg hne, ih hrest, List.cons_append]

/-- Members in ascending order are put in behind each other. -/
theorem insertAll_of_ascending {done members : Document}
    (h : Entries.Ascending (done ++ members)) : insertAll done members = done ++ members := by
  induction members generalizing done with
  | nil => exact (List.append_nil done).symm
  | cons member members ih =>
    have hlast : ∀ entry ∈ done, entry.1 < member.1 := by
      intro entry hentry
      exact (List.pairwise_append.mp h).2.2 entry hentry member List.mem_cons_self
    have hsplit : done ++ member :: members = done ++ [member] ++ members := by simp
    have hinsert := insert_of_forall_lt member.2 hlast
    rw [insertAll, List.foldl_cons, hinsert, ← insertAll, ih (hsplit ▸ h), ← hsplit]

/-- The members behind a first one are read up to the closing brace. -/
theorem membersAfter_membersText {reader : Reader Json} {members founds : Document}
    (hreads : List.Forall₂ (ReadsMember reader) members founds) {fuel : Bytes}
    (hfuel : members.length < fuel.length) (done : Document) (rest : Bytes) :
    membersAfter reader fuel false done (Utf8.encodeChars (membersText members) ++ rest) =
      .ok (insertAll done founds, '}'.toUInt8 :: rest) := by
  induction hreads generalizing fuel done with
  | nil =>
    cases fuel with
    | nil => cases hfuel
    | cons step fuel =>
      have hclose : anotherMember false ('}'.toUInt8 :: rest) = .ok (false, '}'.toUInt8 :: rest) :=
        rfl
      change membersAfter reader (step :: fuel) false done ('}'.toUInt8 :: rest) = _
      rw [membersAfter, hclose]
      rfl
  | @cons member found members founds hmember hmembers ih =>
    obtain ⟨hkey, hvalue⟩ := hmember
    cases fuel with
    | nil => cases hfuel
    | cons step fuel =>
      rw [membersAfter_member hvalue (anotherMember_membersText _ _ members rest)
        (delimited_membersText members rest), ih (Nat.lt_of_succ_lt_succ hfuel), ← hkey]
      rfl

/-- The text of an object behind its opening brace. -/
def objectTail : Document → List Char
  | [] => ['}']
  | (key, value) :: rest => stringText key ++ ':' :: (value.text ++ membersText rest)

theorem anotherMember_objectTail (key : String) (value : Json) (members : Document)
    (rest : Bytes) :
    anotherMember true (Utf8.encodeChars (objectTail ((key, value) :: members)) ++ rest) =
      .ok (true, Utf8.encodeChars (key.toList.flatMap escapedChar) ++ '"'.toUInt8 ::
        ':'.toUInt8 :: (value.bytes ++ (Utf8.encodeChars (membersText members) ++ rest))) := by
  rw [objectTail, encodeChars_member]
  simp only [List.cons_append, List.append_assoc, anotherMember_true]

/-- The mark is found behind an opening brace exactly when it is the first key. -/
theorem behindMark?_objectTail (key : String) (value : Json) (members : Document) (rest : Bytes) :
    behindMark? (Utf8.encodeChars (objectTail ((key, value) :: members)) ++ rest) =
      if key = textMark then
        some (':'.toUInt8 :: (value.bytes ++ (Utf8.encodeChars (membersText members) ++ rest)))
      else none := by
  simp only [behindMark?, anotherMember_objectTail, quoted_stringText]

/-- Without the mark in front, the text of an object is read as members. -/
theorem bracedValue_objectTail {members : Document} (h : isMarked members = false)
    (embedded : Bytes → Except ReadError Json) (reader : Reader Json) (rest : Bytes) :
    bracedValue embedded reader (Utf8.encodeChars (objectTail members) ++ rest) =
      Json.members reader (Utf8.encodeChars (objectTail members) ++ rest) >>=
        fun found ↦ .ok (.object found.1, found.2) := by
  cases members with
  | nil => rfl
  | cons member members =>
    have hkey : member.1 ≠ textMark := by simpa [isMarked] using h
    rw [bracedValue, behindMark?_objectTail, if_neg hkey]

theorem length_objectTail (members : Document) :
    members.length < (Utf8.encodeChars (objectTail members)).length := by
  cases members with
  | nil => decide
  | cons member more =>
    have hlength := length_membersText more
    rw [objectTail, encodeChars_member]
    simp only [List.length_append, List.length_cons]
    omega

/-- The members of an object are read one by one and put in, whatever the reader makes of each. -/
theorem members_objectTail {reader : Reader Json} {document founds : Document}
    (hreads : List.Forall₂ (ReadsMember reader) document founds) (rest : Bytes) :
    members reader (Utf8.encodeChars (objectTail document) ++ rest) =
      .ok (insertAll [] founds, rest) := by
  cases hreads with
  | nil => rfl
  | @cons member found more others hmember hmore =>
    obtain ⟨hkey, hvalue⟩ := hmember
    have hlength := length_objectTail (member :: more)
    have hafter : membersAfter reader (Utf8.encodeChars (objectTail (member :: more)) ++ rest)
        true [] (Utf8.encodeChars (objectTail (member :: more)) ++ rest) =
        .ok (insertAll [] (found :: others), '}'.toUInt8 :: rest) := by
      obtain ⟨step, fuel, hfuel⟩ := List.exists_cons_of_length_pos (Nat.zero_lt_of_lt hlength)
      rw [List.length_cons, hfuel, List.length_cons] at hlength
      nth_rewrite 1 [hfuel]
      rw [List.cons_append, membersAfter_member hvalue (anotherMember_objectTail _ _ more rest)
        (delimited_membersText more rest), membersAfter_membersText hmore, ← hkey]
      · rfl
      · rw [List.length_append]
        omega
    rw [members, hafter]
    rfl

end PathStore.Json
