import PathStore.Json.Record
import PathStore.Proofs.Json.Readable

/-!
# Reading a record that was written

A reader settles a value if it finds in front of the text what was written there, provided that a
condition holds, and refuses the text otherwise.  Scalars are settled without a condition, documents
by their depth; lists and records hand the conditions of their parts on, and open one bracket more.
Only the form in which a record is written is read here: an object with its members in the order of
the fields.
-/

namespace PathStore.Json

/-- The reader finds in front of the text what was written if the condition holds, and refuses the
text otherwise. -/
structure Settles {α : Type} (reader : Reader α) (value : Json) (found : α)
    (condition : Prop) : Prop where
  reads : condition → Reads reader value found
  refuses : ¬ condition → Refuses reader value

theorem settles_of_reads {α : Type} {reader : Reader α} {value : Json} {found : α}
    (h : Reads reader value found) : Settles reader value found True :=
  ⟨fun _ ↦ h, fun hnot ↦ absurd trivial hnot⟩

section settles

variable {α β : Type} {reader : Reader α} {value : Json} {found : α} {condition : Prop}

/-- What is refused is not read. -/
theorem not_reads_of_refuses (h : Refuses reader value) : ¬ Reads reader value found := by
  intro hreads
  obtain ⟨fault, hfault⟩ := h [] rfl
  cases (hreads [] rfl).symm.trans hfault

/-- Whether what was written is found says all about the condition. -/
theorem Settles.decides (h : Settles reader value found condition) :
    Decides reader value (∃ found, Reads reader value found) where
  reads := id
  refuses hnone := h.refuses fun hcondition ↦ hnone ⟨found, h.reads hcondition⟩

theorem Settles.congr {other : Prop} (h : Settles reader value found condition)
    (hiff : condition ↔ other) : Settles reader value found other := by
  rwa [← propext hiff]

/-- Where it is followed by an empty rest, a settled text is read as a whole or not at all. -/
theorem Settles.readWhole (h : Settles reader value found condition) :
    (condition → readWhole reader value.bytes = .ok found) ∧
      (¬ condition → ∃ error, Json.readWhole reader value.bytes = .error error) := by
  constructor
  · intro hcondition
    exact readWhole_of_reads (h.reads hcondition)
  · intro hnot
    exact readWhole_of_refuses (h.refuses hnot)

/-- A reader that goes on with what another one finds settles the same values. -/
theorem Settles.view (h : Settles reader value found condition) {other : Reader β} (view : α → β)
    (hother : ∀ rest, other (value.bytes ++ rest) =
      reader (value.bytes ++ rest) >>= fun found ↦ .ok (view found.1, found.2)) :
    Settles other value (view found) condition := by
  constructor
  · intro hcondition rest hrest
    rw [hother, h.reads hcondition rest hrest]
    rfl
  · intro hnot rest hrest
    obtain ⟨fault, hfault⟩ := h.refuses hnot rest hrest
    rw [hother, hfault]
    exact ⟨fault, rfl⟩

end settles

theorem expecting_cons {α : Type} (expected : String) {accepts : UInt8 → Bool} (reader : Reader α)
    {b : UInt8} (hblank : isBlankByte b = false) (haccepts : accepts b = true) (rest : Bytes) :
    expecting expected accepts reader (b :: rest) = reader (b :: rest) := by
  rw [expecting, skipBlanks_of_not_blank hblank]
  exact if_pos haccepts

/-- Every string settles. -/
theorem settles_string (expected s : String) :
    Settles (stringNamed expected) (.string s) s True := by
  apply settles_of_reads
  intro rest _
  exact stringNamed_string expected s rest

/-- Numbers of 64 bits settle. -/
theorem settles_natural (expected : String) {n : Nat} (h : n < 2 ^ 64) :
    Settles (naturalNamed expected) (.number (.integer n)) n True := by
  apply settles_of_reads
  intro rest hrest
  have hnot : ¬ (n : Int) < 0 := by omega
  have hbytes : (Json.number (.integer n)).bytes = Utf8.encodeChars (Nat.toDigits 10 n) := by
    rw [bytes, text, Number.text, integerText, if_neg hnot, Int.natAbs_natCast]
  have hnumeral : numeral false (Utf8.encodeChars (Nat.toDigits 10 n) ++ rest) =
      .ok (.integer n, rest) :=
    integerNumber_false n ▸ numeral_natural h hrest
  obtain ⟨d, hd, more, hmore⟩ := (isWhole_toDigits n).exists_digitByte
  have hstart : isBlankByte (digitByte d) = false ∧ digitByte d ≠ '-'.toUInt8 := by
    interval_cases d <;> decide
  obtain ⟨hblank, hminus⟩ := hstart
  have haccepts : (digitByte d = '-'.toUInt8 || isDigit (digitByte d)) = true := by
    rw [isDigit_digitByte hd, Bool.or_true]
  rw [hmore, List.cons_append] at hnumeral
  rw [hbytes, hmore, List.cons_append, naturalNamed, expecting_cons expected _ hblank haccepts]
  simp only [List.head?_cons, Option.some.injEq, hminus, decide_false, if_false, hnumeral, bind,
    Except.bind, if_neg hnot, Int.toNat_natCast]

/-- A document that is read back as it is settles if there is room for its brackets. -/
theorem settles_document {document : Document} {room : Nat}
    (hcanonical : (Json.object document).Canonical)
    (hintegers : (Json.object document).IntegersOnly) (hunmarked : UnmarkedMembers document) :
    Settles (Json.document room) (.object document) document
      ((Json.object document).depth ≤ room) where
  reads hdepth := reads_document hcanonical hintegers hunmarked hdepth
  refuses hdeep := (decides_document hcanonical).refuses fun hreadable ↦ hdeep hreadable.1

/-- The name of a value settles as that value. -/
theorem settles_choice {α : Type} {known : List (String × α)} {name : String} {value : α}
    (h : Entries.get? known name = some value) (room : Nat) :
    Settles (choice known room) (.string name) value True := by
  apply settles_of_reads
  intro rest _
  have hopen (more : Bytes) : choice known room ('"'.toUInt8 :: more) =
      quoted more >>= fun found ↦ knownName known found.1 found.2 :=
    rfl
  rw [bytes_string, hopen, quoted_stringText]
  change knownName known name rest = _
  rw [knownName, h]

section parts

variable {α : Type}

/-- A value that does not begin like `null` is read as such. -/
theorem settles_nullable {reader : Reader α} {value : Json} {found : α} {condition : Prop}
    (h : Settles reader value found condition) {b : UInt8} {more : Bytes}
    (hbytes : value.bytes = b :: more) (hblank : isBlankByte b = false) (hnull : b ≠ 'n'.toUInt8) :
    Settles (nullable reader) value (some found) condition := by
  apply h.view some
  intro rest
  rw [hbytes, List.cons_append, nullable, skipBlanks_of_not_blank hblank]
  exact if_neg hnull

variable {codec : Codec α} {condition : α → Prop} {values : List α} {room : Nat}

/-- A list is read if and only if all its items are. -/
theorem settles_list
    (hitems : ∀ item ∈ values, Settles (codec.read room) (codec.write item) item (condition item))
    (hbegins : ∀ item ∈ values, Begins (codec.write item).bytes) :
    Settles (codec.list.read (room + 1)) (codec.list.write values) values
      (∀ item ∈ values, condition item) := by
  have hread (rest : Bytes) : codec.list.read (room + 1) ((codec.list.write values).bytes ++ rest) =
      items (codec.read room) (Utf8.encodeChars (arrayTail (values.map codec.write)) ++ rest) := by
    change listValue codec.read (room + 1) ((Json.array (values.map codec.write)).bytes ++ rest) = _
    rw [bytes_array, List.cons_append, listValue, expecting_cons _ _ (by decide) (by decide)]
    rfl
  have hbegins' : ∀ item ∈ values.map codec.write, Begins item.bytes :=
    List.forall_mem_map.mpr hbegins
  constructor
  · intro hall rest _
    have hreads : List.Forall₂ (Reads (codec.read room)) (values.map codec.write) values :=
      List.forall₂_map_left_iff.mpr <|
        List.forall₂_same.mpr fun item hitem ↦ (hitems item hitem).reads (hall item hitem)
    rw [hread, items_arrayTail hreads hbegins']
  · intro hnot rest _
    rw [hread]
    have hdecides : ∀ item ∈ values.map codec.write,
        Decides (codec.read room) item (∃ found, Reads (codec.read room) item found) :=
      List.forall_mem_map.mpr fun item hitem ↦ (hitems item hitem).decides
    apply items_error hdecides hbegins'
    intro hall
    apply hnot
    intro item hitem
    by_contra hbad
    obtain ⟨found, hfound⟩ := hall _ (List.mem_map_of_mem hitem)
    exact not_reads_of_refuses ((hitems item hitem).refuses hbad) hfound

end parts

/-! ## Records -/

/-- A field that must be there settles as its value does. -/
theorem Field.settles_required {ρ α : Type} {name : String} {codec : Codec α} {get : ρ → α}
    {put : α → ρ → ρ} {room : Nat} {value : Json} {found : α} {condition : Prop}
    (h : Settles (codec.read room) value found condition) :
    Settles ((required name codec get put).read room) value (put found) condition :=
  h.view put fun _ ↦ rfl

/-- A field that may be missing is read as what is there. -/
theorem Field.settles_possible {ρ α : Type} {name : String} {codec : Codec α} {get : ρ → Option α}
    {put : Option α → ρ → ρ} {room : Nat} {value : Json} {found : α} {condition : Prop}
    (h : Settles (nullable (codec.read room)) value (some found) condition) :
    Settles ((possible name codec get put).read room) value (put (some found)) condition :=
  h.view put fun _ ↦ rfl

/-- A field as it is written: its value, what is put into the record when the value is read, and
when it is read. -/
structure WrittenField (ρ : Type) where
  name : String
  value : Json
  put : ρ → ρ
  legible : Prop

def WrittenField.member {ρ : Type} (written : WrittenField ρ) : String × Json :=
  (written.name, written.value)

/-- The text of an object behind its opening brace, or behind a member. -/
def tailText (first : Bool) (members : Document) : List Char :=
  if first then objectTail members else membersText members

theorem anotherMember_tailText (first : Bool) (key : String) (value : Json) (members : Document)
    (rest : Bytes) :
    anotherMember first (Utf8.encodeChars (tailText first ((key, value) :: members)) ++ rest) =
      .ok (true, Utf8.encodeChars (key.toList.flatMap escapedChar) ++ '"'.toUInt8 ::
        ':'.toUInt8 :: (value.bytes ++ (Utf8.encodeChars (tailText false members) ++ rest))) := by
  cases first with
  | true => exact anotherMember_objectTail key value members rest
  | false => exact anotherMember_membersText key value members rest

theorem delimited_tailText (members : Document) (rest : Bytes) :
    Delimited (Utf8.encodeChars (tailText false members) ++ rest) :=
  delimited_membersText members rest

theorem anotherMember_tailText_nil (first : Bool) (rest : Bytes) :
    anotherMember first (Utf8.encodeChars (tailText first []) ++ rest) =
      .ok (false, '}'.toUInt8 :: rest) := by
  cases first <;> rfl

namespace RecordFormat

section record

variable {ρ : Type} {format : RecordFormat ρ} {room : Nat}

/-- The field is one of the format, whose reader settles its value. -/
def SettlesField (format : RecordFormat ρ) (room : Nat) (written : WrittenField ρ) : Prop :=
  ∃ field, format.fields.find? (·.name = written.name) = some field ∧
    Settles (field.read room) written.value written.put written.legible

/-- A record is written as these fields, each once, and they make up the record. -/
structure Writes (format : RecordFormat ρ) (room : Nat) (record : ρ)
    (fields : List (WrittenField ρ)) : Prop where
  write : format.write record = .object (fields.map WrittenField.member)
  settles : ∀ written ∈ fields, format.SettlesField room written
  nodup : (fields.map WrittenField.name).Nodup
  complete : format.missing? (fields.map WrittenField.name).reverse = none
  record : fields.foldl (fun record written ↦ written.put record) format.blank = record

/-- Of several members, the first is read as its field, and then the others are. -/
theorem fromMembers_cons {written : WrittenField ρ} {field : Field ρ}
    (hfield : format.fields.find? (·.name = written.name) = some field) {seen : List String}
    (hseen : written.name ∉ seen) (step : UInt8) (fuel : Bytes) (first : Bool) (record : ρ)
    (members : Document) (rest : Bytes) :
    format.fromMembers room (step :: fuel) first seen record
        (Utf8.encodeChars (tailText first (written.member :: members)) ++ rest) =
      field.read room
          (written.value.bytes ++ (Utf8.encodeChars (tailText false members) ++ rest)) >>=
        fun found ↦ format.fromMembers room fuel false (written.name :: seen) (found.1 record)
          found.2 := by
  have hcolon (more : Bytes) : colon (':'.toUInt8 :: more) = .ok more := rfl
  have hnew : seen.contains written.name = false := by
    simpa using hseen
  rw [fromMembers, WrittenField.member, anotherMember_tailText]
  simp only [bind, Except.bind, quoted_stringText, hfield, hnew, hcolon, Bool.false_eq_true,
    if_false]

section members

variable {fields : List (WrittenField ρ)}
  (hsettles : ∀ written ∈ fields, format.SettlesField room written)

include hsettles

/-- All the fields are read, and what they say is put into the record. -/
theorem fromMembers_tailText {seen : List String}
    (hnodup : (fields.map WrittenField.name ++ seen).Nodup)
    (hlegible : ∀ written ∈ fields, written.legible)
    (hcomplete : format.missing? ((fields.map WrittenField.name).reverse ++ seen) = none)
    {fuel : Bytes} (hfuel : fields.length < fuel.length) (first : Bool) (record : ρ)
    (rest : Bytes) :
    format.fromMembers room fuel first seen record
        (Utf8.encodeChars (tailText first (fields.map WrittenField.member)) ++ rest) =
      .ok (fields.foldl (fun record written ↦ written.put record) record,
        '}'.toUInt8 :: rest) := by
  -- The names to come and those seen are distinct throughout: reading a field moves its name over.
  induction fields generalizing seen fuel first record with
  | nil =>
    cases fuel with
    | nil => cases hfuel
    | cons step fuel =>
      rw [fromMembers, List.map_nil, anotherMember_tailText_nil]
      simp only [bind, Except.bind, List.foldl_nil]
      rw [List.map_nil, List.reverse_nil, List.nil_append] at hcomplete
      rw [hcomplete]
  | cons written fields ih =>
    obtain ⟨⟨field, hfield, hvalue⟩, hsettles⟩ := List.forall_mem_cons.mp hsettles
    have hnew : written.name ∉ seen := by
      intro hmem
      exact (List.nodup_cons.mp hnodup).1 (List.mem_append_right _ hmem)
    obtain ⟨hthis, hlegible⟩ := List.forall_mem_cons.mp hlegible
    cases fuel with
    | nil => cases hfuel
    | cons step fuel =>
      rw [List.map_cons, fromMembers_cons hfield hnew,
        hvalue.reads hthis _ (delimited_tailText _ rest)]
      apply ih hsettles (List.nodup_middle.mpr hnodup) hlegible _ (Nat.lt_of_succ_lt_succ hfuel)
      rw [← hcomplete]
      simp

/-- The first field that is not legible is where reading stops. -/
theorem fromMembers_error {seen : List String}
    (hnodup : (fields.map WrittenField.name ++ seen).Nodup)
    (hbad : ¬ ∀ written ∈ fields, written.legible) {fuel : Bytes}
    (hfuel : fields.length < fuel.length) (first : Bool) (record : ρ) (rest : Bytes) :
    ∃ fault, format.fromMembers room fuel first seen record
        (Utf8.encodeChars (tailText first (fields.map WrittenField.member)) ++ rest) =
      .error fault := by
  induction fields generalizing seen fuel first record with
  | nil => exact absurd (by simp) hbad
  | cons written fields ih =>
    obtain ⟨⟨field, hfield, hvalue⟩, hsettles⟩ := List.forall_mem_cons.mp hsettles
    have hnew : written.name ∉ seen := by
      intro hmem
      exact (List.nodup_cons.mp hnodup).1 (List.mem_append_right _ hmem)
    cases fuel with
    | nil => cases hfuel
    | cons step fuel =>
      rw [List.map_cons, fromMembers_cons hfield hnew]
      by_cases hthis : written.legible
      · rw [hvalue.reads hthis _ (delimited_tailText _ rest)]
        exact ih hsettles (List.nodup_middle.mpr hnodup)
          (fun hall ↦ hbad (List.forall_mem_cons.mpr ⟨hthis, hall⟩))
          (Nat.lt_of_succ_lt_succ hfuel) _ _
      · obtain ⟨fault, hfault⟩ := hvalue.refuses hthis _ (delimited_tailText _ rest)
        rw [hfault]
        exact ⟨fault, rfl⟩

end members

/-- A record is read if and only if all its fields are. -/
theorem Writes.settles_read {record : ρ} {fields : List (WrittenField ρ)}
    (h : format.Writes room record fields) :
    Settles (format.read (room + 1)) (format.write record) record
      (∀ written ∈ fields, written.legible) := by
  have hread (rest : Bytes) : format.read (room + 1) ((format.write record).bytes ++ rest) =
      format.fromMembers room
          (Utf8.encodeChars (tailText true (fields.map WrittenField.member)) ++ rest) true []
          format.blank
          (Utf8.encodeChars (tailText true (fields.map WrittenField.member)) ++ rest) >>=
        fun found ↦ closeObject found.2 >>= fun rest ↦ .ok (found.1, rest) := by
    rw [h.write, bytes_object]
    rfl
  have hfuel (rest : Bytes) : fields.length <
      (Utf8.encodeChars (tailText true (fields.map WrittenField.member)) ++ rest).length := by
    have hlength := length_objectTail (fields.map WrittenField.member)
    rw [List.length_map] at hlength
    rw [List.length_append]
    exact Nat.lt_add_right _ hlength
  have hnodup : (fields.map WrittenField.name ++ []).Nodup := by
    rw [List.append_nil]
    exact h.nodup
  constructor
  · intro hlegible rest _
    have hcomplete : format.missing? ((fields.map WrittenField.name).reverse ++ []) = none := by
      rw [List.append_nil]
      exact h.complete
    rw [hread, fromMembers_tailText h.settles hnodup hlegible hcomplete (hfuel rest), h.record]
    rfl
  · intro hbad rest _
    obtain ⟨fault, hfault⟩ :=
      fromMembers_error h.settles hnodup hbad (hfuel rest) true format.blank rest
    rw [hread, hfault]
    exact ⟨fault, rfl⟩

end record

end RecordFormat

end PathStore.Json
