import PathStore.Proofs.Json.RoundTrip

/-!
# Which documents can be read at all

Whatever is written is read as some value, as long as its arrays and objects are nested no deeper
than the reader follows them and every object in it that begins with the mark holds nothing but a
text that denotes a value; anything else is refused.  The reader decides about an array or an object
because it decides about what is inside, and refuses at the first part that it refuses.  The value
that is read may differ from the one that was written in its double-precision numbers and where an
object with the mark was written.
-/

namespace PathStore.Json

section deciding

variable {α : Type}

/-- The reader fails on the text of the value, whatever may follow. -/
def Refuses (reader : Reader α) (value : Json) : Prop :=
  ∀ rest, Delimited rest → ∃ fault, reader (value.bytes ++ rest) = .error fault

/-- The reader reads the value if the condition holds, and refuses it otherwise. -/
structure Decides (reader : Reader α) (value : Json) (condition : Prop) : Prop where
  reads : condition → ∃ found, Reads reader value found
  refuses : ¬ condition → Refuses reader value

theorem decides_of_reads {reader : Reader α} {value : Json} {found : α} {condition : Prop}
    (h : Reads reader value found) (hcondition : condition) : Decides reader value condition :=
  ⟨fun _ ↦ ⟨found, h⟩, fun hnot ↦ absurd hcondition hnot⟩

theorem Decides.congr {reader : Reader α} {value : Json} {condition other : Prop}
    (h : Decides reader value condition) (hiff : condition ↔ other) :
    Decides reader value other := by
  rwa [← propext hiff]

end deciding

theorem exists_forall₂ {α β : Type} {R : α → β → Prop} {values : List α}
    (h : ∀ value ∈ values, ∃ found, R value found) : ∃ founds, List.Forall₂ R values founds := by
  induction values with
  | nil => exact ⟨[], .nil⟩
  | cons value values ih =>
    obtain ⟨⟨found, hfound⟩, hvalues⟩ := List.forall_mem_cons.mp h
    obtain ⟨founds, hfounds⟩ := ih hvalues
    exact ⟨found :: founds, .cons hfound hfounds⟩

section arrays

variable {α : Type} {reader : Reader α} {condition : Json → Prop}

/-- An item that is refused ends the reading of the array. -/
theorem itemsAfter_refused {item : Json} (hrefuses : Refuses reader item) {done : List α}
    {bytes rest : Bytes} (hmore : anotherItem done.isEmpty bytes = .ok (true, item.bytes ++ rest))
    (hrest : Delimited rest) (step : UInt8) (fuel : Bytes) :
    ∃ fault, itemsAfter reader (step :: fuel) done bytes = .error fault := by
  obtain ⟨fault, hfault⟩ := hrefuses rest hrest
  refine ⟨fault, ?_⟩
  rw [itemsAfter, hmore]
  dsimp only
  rw [hfault]

/-- Items behind a first one are refused if one of them is. -/
theorem itemsAfter_error {items : List Json}
    (hdecides : ∀ item ∈ items, Decides reader item (condition item))
    (hbegins : ∀ item ∈ items, Begins item.bytes) (hbad : ¬ ∀ item ∈ items, condition item)
    {fuel : Bytes} (hfuel : items.length < fuel.length) {done : List α} (hdone : done ≠ [])
    (rest : Bytes) :
    ∃ fault, itemsAfter reader fuel done (Utf8.encodeChars (itemsText items) ++ rest) =
      .error fault := by
  induction items generalizing fuel done with
  | nil => exact absurd (by simp) hbad
  | cons item items ih =>
    obtain ⟨hitem, hitems⟩ := List.forall_mem_cons.mp hdecides
    obtain ⟨hbegin, hbegins⟩ := List.forall_mem_cons.mp hbegins
    have hmore := anotherItem_itemsText hdone hbegin items rest
    cases fuel with
    | nil => cases hfuel
    | cons step fuel =>
      by_cases hcondition : condition item
      · obtain ⟨found, hfound⟩ := hitem.reads hcondition
        rw [itemsAfter_item hfound hmore (delimited_itemsText items rest)]
        exact ih hitems hbegins (fun hall ↦ hbad (List.forall_mem_cons.mpr ⟨hcondition, hall⟩))
          (Nat.lt_of_succ_lt_succ hfuel) (List.cons_ne_nil found done)
      · exact itemsAfter_refused (hitem.refuses hcondition) hmore (delimited_itemsText items rest)
          step fuel

/-- An array is refused if one of its items is. -/
theorem items_error {values : List Json}
    (hdecides : ∀ item ∈ values, Decides reader item (condition item))
    (hbegins : ∀ item ∈ values, Begins item.bytes) (hbad : ¬ ∀ item ∈ values, condition item)
    (rest : Bytes) :
    ∃ fault, items reader (Utf8.encodeChars (arrayTail values) ++ rest) = .error fault := by
  cases values with
  | nil => exact absurd (by simp) hbad
  | cons item more =>
    have hlength := length_arrayTail hbegins
    obtain ⟨hitem, hmore⟩ := List.forall_mem_cons.mp hdecides
    obtain ⟨hbegin, hbegins⟩ := List.forall_mem_cons.mp hbegins
    have hfirst := anotherItem_arrayTail α hbegin more rest
    obtain ⟨step, fuel, hfuel⟩ := List.exists_cons_of_length_pos (Nat.zero_lt_of_lt hlength)
    rw [List.length_cons, hfuel, List.length_cons] at hlength
    have hafter : ∃ fault, itemsAfter reader (step :: (fuel ++ rest)) []
        (Utf8.encodeChars (arrayTail (item :: more)) ++ rest) = .error fault := by
      by_cases hcondition : condition item
      · obtain ⟨found, hfound⟩ := hitem.reads hcondition
        rw [itemsAfter_item hfound hfirst (delimited_itemsText more rest)]
        refine itemsAfter_error hmore hbegins
          (fun hall ↦ hbad (List.forall_mem_cons.mpr ⟨hcondition, hall⟩)) ?_
          (List.cons_ne_nil found []) rest
        rw [List.length_append]
        omega
      · exact itemsAfter_refused (hitem.refuses hcondition) hfirst
          (delimited_itemsText more rest) _ _
    obtain ⟨fault, hfault⟩ := hafter
    refine ⟨fault, ?_⟩
    rw [← List.cons_append, ← hfuel] at hfault
    rw [items, hfault]
    rfl

/-- The items decide about an array. -/
theorem decides_array {embedded : Bytes → Except ReadError Json} {reader : Reader Json}
    {items : List Json}
    (hdecides : ∀ item ∈ items, Decides reader item (condition item))
    (hbegins : ∀ item ∈ items, Begins item.bytes) :
    Decides (valueWith embedded (some reader)) (.array items) (∀ item ∈ items, condition item) := by
  constructor
  · intro hall
    obtain ⟨founds, hfounds⟩ :=
      exists_forall₂ fun item hitem ↦ (hdecides item hitem).reads (hall item hitem)
    refine ⟨.array founds, ?_⟩
    intro rest _
    rw [bytes_array, List.cons_append, valueWith_bracket, items_arrayTail hfounds hbegins]
    rfl
  · intro hbad rest _
    obtain ⟨fault, hfault⟩ := items_error hdecides hbegins hbad rest
    refine ⟨fault, ?_⟩
    rw [bytes_array, List.cons_append, valueWith_bracket, hfault]
    rfl

end arrays

section objects

variable {reader : Reader Json} {condition : String × Json → Prop}

/-- A member that is refused ends the reading of the object. -/
theorem membersAfter_refused {key : String} {value : Json} (hrefuses : Refuses reader value)
    {first : Bool} {bytes rest : Bytes} (hmore : anotherMember first bytes = .ok (true,
      Utf8.encodeChars (key.toList.flatMap escapedChar) ++
        '"'.toUInt8 :: ':'.toUInt8 :: (value.bytes ++ rest)))
    (hrest : Delimited rest) (step : UInt8) (fuel : Bytes) (done : Document) :
    ∃ fault, membersAfter reader (step :: fuel) first done bytes = .error fault := by
  obtain ⟨fault, hfault⟩ := hrefuses rest hrest
  have hcolon : colon (':'.toUInt8 :: (value.bytes ++ rest)) = .ok (value.bytes ++ rest) := rfl
  refine ⟨fault, ?_⟩
  rw [membersAfter, hmore]
  simp only [bind, Except.bind, quoted_stringText, hcolon, hfault]

/-- Members behind a first one are refused if one of them is. -/
theorem membersAfter_error {members : Document}
    (hdecides : ∀ member ∈ members, Decides reader member.2 (condition member))
    (hbad : ¬ ∀ member ∈ members, condition member) {fuel : Bytes}
    (hfuel : members.length < fuel.length) (done : Document) (rest : Bytes) :
    ∃ fault, membersAfter reader fuel false done (Utf8.encodeChars (membersText members) ++ rest) =
      .error fault := by
  induction members generalizing fuel done with
  | nil => exact absurd (by simp) hbad
  | cons member members ih =>
    obtain ⟨key, value⟩ := member
    obtain ⟨hvalue, hmembers⟩ := List.forall_mem_cons.mp hdecides
    have hmore := anotherMember_membersText key value members rest
    cases fuel with
    | nil => cases hfuel
    | cons step fuel =>
      by_cases hcondition : condition (key, value)
      · obtain ⟨found, hfound⟩ := hvalue.reads hcondition
        rw [membersAfter_member hfound hmore (delimited_membersText members rest)]
        exact ih hmembers (fun hall ↦ hbad (List.forall_mem_cons.mpr ⟨hcondition, hall⟩))
          (Nat.lt_of_succ_lt_succ hfuel) _
      · exact membersAfter_refused (hvalue.refuses hcondition) hmore
          (delimited_membersText members rest) step fuel done

/-- An object is refused if one of its members is. -/
theorem members_error {document : Document}
    (hdecides : ∀ member ∈ document, Decides reader member.2 (condition member))
    (hbad : ¬ ∀ member ∈ document, condition member) (rest : Bytes) :
    ∃ fault, members reader (Utf8.encodeChars (objectTail document) ++ rest) = .error fault := by
  cases document with
  | nil => exact absurd (by simp) hbad
  | cons member more =>
    obtain ⟨key, value⟩ := member
    obtain ⟨hvalue, hmembers⟩ := List.forall_mem_cons.mp hdecides
    have hlength := length_objectTail ((key, value) :: more)
    have hfirst := anotherMember_objectTail key value more rest
    obtain ⟨step, bytes, hbytes⟩ := List.exists_cons_of_length_pos (Nat.zero_lt_of_lt hlength)
    rw [List.length_cons, hbytes, List.length_cons] at hlength
    have hafter : ∃ fault, membersAfter reader (step :: (bytes ++ rest)) true []
        (Utf8.encodeChars (objectTail ((key, value) :: more)) ++ rest) = .error fault := by
      by_cases hcondition : condition (key, value)
      · obtain ⟨found, hfound⟩ := hvalue.reads hcondition
        rw [membersAfter_member hfound hfirst (delimited_membersText more rest)]
        refine membersAfter_error hmembers
          (fun hall ↦ hbad (List.forall_mem_cons.mpr ⟨hcondition, hall⟩)) ?_ _ rest
        rw [List.length_append]
        omega
      · exact membersAfter_refused (hvalue.refuses hcondition) hfirst
          (delimited_membersText more rest) _ _ _
    obtain ⟨fault, hfault⟩ := hafter
    refine ⟨fault, ?_⟩
    rw [← List.cons_append, ← hbytes] at hfault
    rw [members, hfault]
    rfl

theorem exists_readsMember {document : Document}
    (hdecides : ∀ member ∈ document, Decides reader member.2 (condition member))
    (hall : ∀ member ∈ document, condition member) :
    ∃ founds, List.Forall₂ (ReadsMember reader) document founds := by
  apply exists_forall₂
  intro member hmember
  obtain ⟨found, hfound⟩ := (hdecides member hmember).reads (hall member hmember)
  exact ⟨(member.1, found), rfl, hfound⟩

/-- The members decide about an object that does not begin with the mark. -/
theorem decides_unmarked {members : Document} (hunmarked : isMarked members = false)
    (hdecides : ∀ member ∈ members, Decides reader member.2 (condition member)) :
    Decides (valueWith parse (some reader)) (.object members)
      (∀ member ∈ members, condition member) := by
  constructor
  · intro hall
    obtain ⟨founds, hfounds⟩ := exists_readsMember hdecides hall
    exact ⟨_, reads_object hunmarked hfounds⟩
  · intro hbad rest _
    obtain ⟨fault, hfault⟩ := members_error hdecides hbad rest
    refine ⟨fault, ?_⟩
    rw [bytes_object, List.cons_append, valueWith_brace, bracedValue_objectTail hunmarked, hfault]
    rfl

end objects

section marks

theorem exists_head_of_not_string {value : Json} (hcanonical : value.Canonical)
    (hstring : ∀ s, value ≠ .string s) : ∃ b rest,
      value.bytes = b :: rest ∧ isBlankByte b = false ∧ b ≠ '"'.toUInt8 := by
  cases value with
  | null => exact ⟨_, _, rfl, rfl, by decide⟩
  | bool b => cases b <;> exact ⟨_, _, rfl, rfl, by decide⟩
  | string s => exact absurd rfl (hstring s)
  | array items => cases items <;> exact ⟨_, _, rfl, rfl, by decide⟩
  | object members => cases members <;> exact ⟨_, _, rfl, rfl, by decide⟩
  | number n =>
    obtain ⟨b, rest, hbytes, rfl | ⟨d, hd, rfl⟩⟩ := exists_head_number hcanonical
    · exact ⟨_, _, hbytes, rfl, by decide⟩
    · refine ⟨_, _, hbytes, ?_⟩
      interval_cases d <;> decide

/-- Where a string is due, the text of any other value is refused. -/
theorem stringNamed_error {value : Json} (hcanonical : value.Canonical)
    (hstring : ∀ s, value ≠ .string s) (expected : String) (rest : Bytes) :
    ∃ fault, stringNamed expected (value.bytes ++ rest) = .error fault := by
  obtain ⟨b, more, hbytes, hblank, hquote⟩ := exists_head_of_not_string hcanonical hstring
  obtain ⟨fault, hfault⟩ := exists_wrongType (α := String × Bytes) expected (b :: (more ++ rest))
  refine ⟨fault, ?_⟩
  rw [stringNamed, expecting, hbytes, List.cons_append, skipBlanks_of_not_blank hblank]
  simp only [hquote, decide_false, Bool.false_eq_true, if_false, hfault]

theorem stringNamed_string (expected s : String) (rest : Bytes) :
    stringNamed expected ((Json.string s).bytes ++ rest) = .ok (s, rest) := by
  rw [bytes_string]
  exact quoted_stringText s rest

variable {reader : Reader Json}

/-- An object that begins with the mark is read as what stands behind the mark. -/
theorem valueWith_marked (value : Json) (members : Document) (rest : Bytes) :
    valueWith parse (some reader) ((Json.object ((textMark, value) :: members)).bytes ++ rest) =
      markedValue parse (':'.toUInt8 ::
        (value.bytes ++ (Utf8.encodeChars (membersText members) ++ rest))) := by
  rw [bytes_object, List.cons_append, valueWith_brace, bracedValue, behindMark?_objectTail,
    if_pos rfl]

/-- An object that begins with the mark is read as the value of its text. -/
theorem reads_standsForText {text : String} {v : Json} (h : parse (Utf8.encode text) = .ok v) :
    Reads (valueWith parse (some reader)) (.object [(textMark, .string text)]) v := by
  intro rest _
  have hcolon : ∀ behind, colon (':'.toUInt8 :: behind) = .ok behind := fun _ ↦ rfl
  have hclose : closeObject (Utf8.encodeChars (membersText []) ++ rest) = .ok rest := rfl
  rw [valueWith_marked]
  simp only [markedValue, hcolon, stringNamed_string, h, hclose, bind, Except.bind]

/-- What does not stand for a text is refused behind the mark. -/
theorem markedValue_error {value : Json} {members : Document} (hcanonical : value.Canonical)
    (h : ¬ StandsForText ((textMark, value) :: members)) (rest : Bytes) :
    ∃ fault, markedValue parse (':'.toUInt8 ::
      (value.bytes ++ (Utf8.encodeChars (membersText members) ++ rest))) = .error fault := by
  have hcolon : ∀ behind, colon (':'.toUInt8 :: behind) = .ok behind := fun _ ↦ rfl
  simp only [markedValue, hcolon, bind, Except.bind]
  by_cases hstring : ∃ s, value = .string s
  · obtain ⟨s, rfl⟩ := hstring
    rw [stringNamed_string]
    dsimp only
    cases htext : parse (Utf8.encode s) with
    | error error => exact ⟨_, rfl⟩
    | ok v =>
      cases members with
      | nil => exact absurd ⟨s, v, rfl, htext⟩ h
      | cons member members =>
        rw [encodeChars_membersText_cons]
        exact ⟨_, rfl⟩
  · obtain ⟨fault, hfault⟩ := stringNamed_error hcanonical (fun s hs ↦ hstring ⟨s, hs⟩)
      "raw value" (Utf8.encodeChars (membersText members) ++ rest)
    rw [hfault]
    exact ⟨_, rfl⟩

/-- An object that begins with the mark is read just when it stands for the value of a text. -/
theorem decides_marked {members : Document} (hmarked : isMarked members)
    (hcanonical : ∀ member ∈ members, member.2.Canonical) :
    Decides (valueWith parse (some reader)) (.object members) (StandsForText members) := by
  cases members with
  | nil => cases hmarked
  | cons member members =>
    obtain ⟨key, value⟩ := member
    obtain rfl : key = textMark := by simpa [isMarked] using hmarked
    constructor
    · rintro ⟨text, v, hmembers, htext⟩
      rw [hmembers]
      exact ⟨v, reads_standsForText htext⟩
    · intro hbad rest _
      rw [valueWith_marked]
      exact markedValue_error (hcanonical _ List.mem_cons_self) hbad rest

/-- The mark decides about an object that begins with it, and the members about any other one. -/
theorem marksReadable_object_iff {members : Document} {room : Nat} :
    ((Json.object members).depth ≤ room + 1 ∧ (Json.object members).MarksReadable) ↔
      if isMarked members then StandsForText members
      else ∀ member ∈ members, member.2.depth ≤ room ∧ member.2.MarksReadable := by
  rw [depth, Nat.succ_le_succ_iff, depthMembers_le_iff, MarksReadable, marksReadableMembers_iff]
  split
  · rename_i hmarked
    constructor
    · intro h
      exact h.2.1 hmarked
    · intro hstands
      obtain ⟨text, v, rfl, htext⟩ := hstands
      refine ⟨?_, fun _ ↦ ⟨text, v, rfl, htext⟩, ?_⟩
      · rw [List.forall_mem_singleton]
        exact Nat.zero_le room
      · rw [List.forall_mem_singleton]
        trivial
  · rename_i hunmarked
    rw [forall₂_and]
    constructor
    · intro h
      exact ⟨h.1, h.2.2⟩
    · intro h
      exact ⟨h.1, fun hmarked ↦ absurd hmarked hunmarked, h.2⟩

end marks

section scalars

variable (embedded : Bytes → Except ReadError Json) (nested : Option (Reader Json))

/-- A finite double-precision number is read as some number. -/
theorem exists_reads_double {x : Binary64} (h : x.isFinite) :
    ∃ found, Reads (valueWith embedded nested) (.number (.double x)) found := by
  have hreadable := isReadable_magnitudeText h
  obtain ⟨n, hn⟩ := hreadable.numeral_eq_ok x.isNegative
  refine ⟨.number n, ?_⟩
  intro rest hrest
  have hread := hn rest hrest
  have hbytes : (Json.number (.double x)).bytes = Utf8.encodeChars (numberLayout.text x) := rfl
  rw [hbytes, DecimalLayout.text]
  split
  · rename_i hnegative
    have hminus : Utf8.encodeChar '-' = ['-'.toUInt8] := rfl
    rw [hnegative] at hread
    rw [Utf8.encodeChars_cons, hminus, List.singleton_append, List.cons_append, valueWith_minus,
      hread]
    rfl
  · rename_i hpositive
    obtain ⟨d, hd, more, hmore⟩ := hreadable.exists_digitByte
    rw [Bool.eq_false_iff.mpr hpositive, hmore, List.cons_append] at hread
    rw [hmore, List.cons_append, valueWith_digit embedded nested _ hd, hread]
    rfl

/-- Every scalar is read as some value. -/
theorem exists_reads_scalar {v : Json} (hscalar : v.isCompound = false)
    (hcanonical : v.Canonical) : ∃ found, Reads (valueWith embedded nested) v found := by
  cases v with
  | number n =>
    cases n with
    | double x => exact exists_reads_double embedded nested hcanonical
    | integer i => exact ⟨_, takesBack_integer embedded nested hcanonical⟩
  | array items => cases hscalar
  | object members => cases hscalar
  | _ => exact ⟨_, takesBack_scalar embedded nested hscalar hcanonical trivial⟩

end scalars

/-- The depth of a value and the marks in it decide whether it is read. -/
theorem decides_value {v : Json} {room : Nat} (h : v.Canonical) :
    Decides (value room) v (v.depth ≤ room ∧ v.MarksReadable) := by
  induction room generalizing v with
  | zero =>
    cases v with
    | array items =>
      refine ⟨nofun, ?_⟩
      intro _ rest _
      rw [bytes_array]
      exact ⟨_, rfl⟩
    | object members =>
      refine ⟨nofun, ?_⟩
      intro _ rest _
      rw [bytes_object]
      exact ⟨_, rfl⟩
    | _ =>
      obtain ⟨found, hfound⟩ := exists_reads_scalar parse none rfl h
      exact decides_of_reads hfound ⟨Nat.zero_le _, trivial⟩
  | succ room ih =>
    cases v with
    | array items =>
      rw [Canonical, canonicalItems_iff] at h
      rw [depth, Nat.succ_le_succ_iff, depthItems_le_iff, MarksReadable, marksReadableItems_iff,
        ← forall₂_and]
      exact decides_array (fun item hitem ↦ ih (h item hitem))
        fun item hitem ↦ begins_bytes (h item hitem)
    | object members =>
      rw [Canonical, canonicalMembers_iff] at h
      rw [marksReadable_object_iff]
      split
      · rename_i hmarked
        exact decides_marked hmarked h.2
      · rename_i hunmarked
        exact decides_unmarked (Bool.eq_false_iff.mpr hunmarked) fun member hmember ↦
          ih (h.2 member hmember)
    | _ =>
      obtain ⟨found, hfound⟩ := exists_reads_scalar parse (some (value room)) rfl h
      exact decides_of_reads hfound ⟨Nat.zero_le _, trivial⟩

/-- The depth of a document and the marks inside it decide whether it is read. -/
theorem decides_document {document : Document} {room : Nat}
    (h : (Json.object document).Canonical) :
    Decides (Json.document room) (.object document)
      ((Json.object document).depth ≤ room ∧ MarksReadableMembers document) := by
  cases room with
  | zero =>
    refine ⟨nofun, ?_⟩
    intro _ rest _
    rw [bytes_object]
    exact ⟨_, rfl⟩
  | succ room =>
    rw [Canonical, canonicalMembers_iff] at h
    rw [depth, Nat.succ_le_succ_iff, depthMembers_le_iff, marksReadableMembers_iff, ← forall₂_and]
    have hdecides : ∀ member ∈ document,
        Decides (value room) member.2 (member.2.depth ≤ room ∧ member.2.MarksReadable) :=
      fun member hmember ↦ decides_value (h.2 member hmember)
    constructor
    · intro hall
      obtain ⟨founds, hfounds⟩ := exists_readsMember hdecides hall
      refine ⟨insertAll [] founds, ?_⟩
      intro rest _
      rw [bytes_object]
      exact members_objectTail hfounds rest
    · intro hbad rest _
      rw [bytes_object]
      exact members_error hdecides hbad rest

theorem readWhole_of_refuses {α : Type} {reader : Reader α} {value : Json}
    (h : Refuses reader value) : ∃ error, readWhole reader value.bytes = .error error := by
  obtain ⟨fault, hfault⟩ := h [] rfl
  rw [List.append_nil] at hfault
  rw [readWhole, whole, hfault]
  exact ⟨_, rfl⟩

/-- The document is nested no deeper than the reader follows, and every object inside it that begins
with the mark stands for the value of a text. -/
structure ReadableDocument (document : Document) : Prop where
  depth : (Json.object document).depth ≤ maxDepth
  marks : MarksReadableMembers document

/-- A stored document can be read again if and only if its depth and its marks allow it. -/
theorem decodeBody_eq_ok_iff {document : Document} (h : (Json.object document).Canonical) :
    (∃ found, decodeBody (Json.object document).bytes = .ok found) ↔
      ReadableDocument document := by
  have hdecides : Decides (Json.document maxDepth) (.object document)
      ((Json.object document).depth ≤ maxDepth ∧ MarksReadableMembers document) :=
    decides_document h
  rw [decodeBody, parseDocument]
  constructor
  · intro hread
    by_contra hbad
    obtain ⟨error, herror⟩ := readWhole_of_refuses <|
      hdecides.refuses fun hreadable ↦ hbad ⟨hreadable.1, hreadable.2⟩
    rw [herror] at hread
    obtain ⟨found, hfound⟩ := hread
    cases hfound
  · intro hreadable
    obtain ⟨found, hfound⟩ := hdecides.reads ⟨hreadable.depth, hreadable.marks⟩
    rw [readWhole_of_reads hfound]
    exact ⟨found, rfl⟩

/-- Of the documents without double-precision numbers that are not nested too deeply, those that are
read back as they were are the ones without a mark inside. -/
theorem decodeBody_bytes_eq_self_iff {document : Document}
    (hcanonical : (Json.object document).Canonical)
    (hintegers : (Json.object document).IntegersOnly)
    (hdepth : (Json.object document).depth ≤ maxDepth) :
    decodeBody (Json.object document).bytes = .ok document ↔ UnmarkedMembers document := by
  constructor
  · intro hread
    have hreadable := (decodeBody_eq_ok_iff hcanonical).mp ⟨document, hread⟩
    have hmarks := marksReadableMembers_iff.mp hreadable.marks
    have hmembers := members_of_decodeBody inherited_unmarked hread
    rw [unmarkedMembers_iff]
    intro member hmember
    exact hmembers.value member hmember (hmarks member hmember)
  · intro hunmarked
    exact Document.IsFaithful.decodeBody_bytes ⟨hcanonical, hintegers, hunmarked, hdepth⟩

/-- A document with an object whose first key is the mark, and no text behind it. -/
def markedDocument : Document :=
  [("a", .object [(textMark, .number (.integer 1)), ("x", .number (.integer 1))])]

theorem canonical_markedDocument : (Json.object markedDocument).Canonical := by
  refine ⟨nofun, ⟨?_, ⟨by decide, by decide⟩, nofun, ⟨by decide, by decide⟩, trivial⟩, trivial⟩
  exact List.forall_mem_singleton.mpr (by decide)

theorem integersOnly_markedDocument : (Json.object markedDocument).IntegersOnly :=
  ⟨⟨trivial, trivial, trivial⟩, trivial⟩

/-- Once such a document has been written, it cannot be read. -/
theorem decodeBody_markedDocument {found : Document} :
    decodeBody (Json.object markedDocument).bytes ≠ .ok found := by
  intro hread
  have herror : (decodeBody (Json.object markedDocument).bytes).isOk = false := by decide +kernel
  rw [hread] at herror
  cases herror

end PathStore.Json
