import PathStore.Document.PathValue
import PathStore.Proofs.Json.Embedded
import PathStore.Storage.Documents

/-!
# A stored document is read back

What follows about a whole value rests on the induction over the room left for nesting: with room
for one more bracket, the reader takes an array or an object back because it takes back whatever is
nested less deeply.  An object that begins with the mark is not taken back.
-/

namespace PathStore.Json

section firstByte

variable (embedded : Bytes → Except ReadError Json) (nested : Option (Reader Json))
  (reader : Reader Json) (rest : Bytes)

theorem valueWith_minus : valueWith embedded nested ('-'.toUInt8 :: rest) =
    numeral true rest >>= fun found ↦ .ok (.number found.1, found.2) :=
  rfl

theorem valueWith_digit {d : Nat} (h : d < 10) : valueWith embedded nested (digitByte d :: rest) =
    numeral false (digitByte d :: rest) >>= fun found ↦ .ok (.number found.1, found.2) := by
  interval_cases d <;> rfl

theorem valueWith_quote : valueWith embedded nested ('"'.toUInt8 :: rest) =
    quoted rest >>= fun found ↦ .ok (.string found.1, found.2) :=
  rfl

theorem valueWith_bracket : valueWith embedded (some reader) ('['.toUInt8 :: rest) =
    items reader rest >>= fun found ↦ .ok (.array found.1, found.2) :=
  rfl

theorem valueWith_brace : valueWith embedded (some reader) ('{'.toUInt8 :: rest) =
    bracedValue embedded reader rest :=
  rfl

end firstByte

section scalars

variable (embedded : Bytes → Except ReadError Json) (nested : Option (Reader Json))

/-- An integer of 64 bits is read back, with its sign. -/
theorem takesBack_integer {i : Int} (h : (Number.integer i).InRange) :
    TakesBack (valueWith embedded nested) (.number (.integer i)) := by
  intro rest hrest
  obtain ⟨hlow, hhigh⟩ := h
  have hbytes : (Json.number (.integer i)).bytes = Utf8.encodeChars (integerText i) := rfl
  rw [hbytes, integerText]
  split
  · rename_i hnegative
    have hnumber : integerNumber true i.natAbs = .integer i := by
      rw [integerNumber_true (by omega) (by omega), Int.ofNat_natAbs_of_nonpos (by omega), neg_neg]
    have hminus : Utf8.encodeChar '-' = ['-'.toUInt8] := rfl
    rw [Utf8.encodeChars_cons, hminus, List.singleton_append, List.cons_append, valueWith_minus,
      numeral_natural (by omega) hrest, hnumber]
    rfl
  · rename_i hnatural
    have hnumber : integerNumber false i.natAbs = .integer i := by
      rw [integerNumber_false, Int.natAbs_of_nonneg (by omega)]
    obtain ⟨d, hd, more, hmore⟩ := (isWhole_toDigits i.natAbs).exists_digitByte
    rw [hmore, List.cons_append, valueWith_digit embedded nested _ hd, ← List.cons_append, ← hmore,
      numeral_natural (by omega) hrest, hnumber]
    rfl

theorem bytes_string (s : String) (rest : Bytes) : (Json.string s).bytes ++ rest =
    '"'.toUInt8 :: (Utf8.encodeChars (s.toList.flatMap escapedChar) ++ '"'.toUInt8 :: rest) := by
  have hbytes : (Json.string s).bytes =
      '"'.toUInt8 :: (Utf8.encodeChars (s.toList.flatMap escapedChar) ++ ['"'.toUInt8]) :=
    congrArg _ (Utf8.encodeChars_append _ _)
  rw [hbytes, List.cons_append, List.append_assoc, List.singleton_append]

/-- A string is read back, whatever its characters. -/
theorem takesBack_string (s : String) :
    TakesBack (valueWith embedded nested) (.string s) := by
  intro rest _
  rw [bytes_string, valueWith_quote, quoted_stringText]
  rfl

theorem takesBack_scalar {v : Json} (hscalar : v.isCompound = false) (hcanonical : v.Canonical)
    (hintegers : v.IntegersOnly) : TakesBack (valueWith embedded nested) v := by
  cases v with
  | null => exact fun _ _ ↦ rfl
  | bool b => cases b <;> exact fun _ _ ↦ rfl
  | string s => exact takesBack_string embedded nested s
  | number n =>
    cases n with
    | double x => cases hintegers
    | integer i => exact takesBack_integer embedded nested hcanonical
  | array items => cases hscalar
  | object members => cases hscalar

end scalars

section compounds

variable {embedded : Bytes → Except ReadError Json} {reader : Reader Json}

theorem bytes_array (items : List Json) :
    (Json.array items).bytes = '['.toUInt8 :: Utf8.encodeChars (arrayTail items) := by
  cases items <;> rfl

/-- An array is read back if its items are. -/
theorem takesBack_array {items : List Json}
    (htakes : ∀ item ∈ items, TakesBack reader item)
    (hbegins : ∀ item ∈ items, Begins item.bytes) :
    TakesBack (valueWith embedded (some reader)) (.array items) := by
  intro rest _
  rw [bytes_array, List.cons_append, valueWith_bracket,
    items_arrayTail (List.forall₂_same.mpr htakes) hbegins]
  rfl

theorem bytes_object (document : Document) : (Json.object document).bytes =
    '{'.toUInt8 :: Utf8.encodeChars (objectTail document) := by
  cases document <;> rfl

/-- Members whose keys ascend keep their order. -/
theorem members_of_takesBack {document : Document}
    (htakes : ∀ member ∈ document, TakesBack reader member.2)
    (hascending : Entries.Ascending document) (rest : Bytes) :
    members reader (Utf8.encodeChars (objectTail document) ++ rest) = .ok (document, rest) := by
  have hsame : List.Forall₂ (ReadsMember reader) document document :=
    List.forall₂_same.mpr fun member hmember ↦ ⟨rfl, htakes member hmember⟩
  rw [members_objectTail hsame, insertAll_of_ascending (List.nil_append document ▸ hascending),
    List.nil_append]

/-- The members are put in one after the other, whatever their order in the text. -/
theorem reads_object {members founds : Document} (hunmarked : isMarked members = false)
    (hmembers : List.Forall₂ (ReadsMember reader) members founds) :
    Reads (valueWith embedded (some reader)) (.object members) (.object (insertAll [] founds)) := by
  intro rest _
  rw [bytes_object, List.cons_append, valueWith_brace, bracedValue_objectTail hunmarked,
    members_objectTail hmembers]
  rfl

/-- An object without the mark in front is read back if its values are. -/
theorem takesBack_object {members : Document} (hunmarked : isMarked members = false)
    (htakes : ∀ member ∈ members, TakesBack reader member.2)
    (hascending : Entries.Ascending members) :
    TakesBack (valueWith embedded (some reader)) (.object members) := by
  intro rest _
  rw [bytes_object, List.cons_append, valueWith_brace, bracedValue_objectTail hunmarked,
    members_of_takesBack htakes hascending]
  rfl

end compounds

/-- With room for its brackets, a value is read back by induction over the room. -/
theorem takesBack_valueIn (embedded : Bytes → Except ReadError Json) {v : Json} {room : Nat}
    (hcanonical : v.Canonical) (hintegers : v.IntegersOnly) (hunmarked : v.Unmarked)
    (hdepth : v.depth ≤ room) : TakesBack (valueIn embedded room) v := by
  induction room generalizing v with
  | zero =>
    cases v with
    | array items => cases hdepth
    | object members => cases hdepth
    | _ => exact takesBack_scalar embedded none rfl hcanonical hintegers
  | succ room ih =>
    cases v with
    | array items =>
      rw [Canonical, canonicalItems_iff] at hcanonical
      rw [IntegersOnly, integersOnlyItems_iff] at hintegers
      rw [Unmarked, unmarkedItems_iff] at hunmarked
      rw [depth, Nat.succ_le_succ_iff, depthItems_le_iff] at hdepth
      have htakes : ∀ item ∈ items, TakesBack (valueIn embedded room) item := by
        intro item hitem
        exact ih (hcanonical item hitem) (hintegers item hitem) (hunmarked item hitem)
          (hdepth item hitem)
      exact takesBack_array htakes fun item hitem ↦ begins_bytes (hcanonical item hitem)
    | object members =>
      rw [Canonical, canonicalMembers_iff] at hcanonical
      rw [IntegersOnly, integersOnlyMembers_iff] at hintegers
      rw [Unmarked, unmarkedMembers_iff] at hunmarked
      rw [depth, Nat.succ_le_succ_iff, depthMembers_le_iff] at hdepth
      have htakes : ∀ member ∈ members, TakesBack (valueIn embedded room) member.2 := by
        intro member hmember
        exact ih (hcanonical.2 member hmember) (hintegers member hmember)
          (hunmarked.2 member hmember) (hdepth member hmember)
      exact takesBack_object hunmarked.1 htakes hcanonical.1
    | _ => exact takesBack_scalar embedded _ rfl hcanonical hintegers

/-- A document without double-precision numbers and without marked objects inside that is not nested
too deeply is found in front of its text. -/
theorem reads_document {document : Document} {room : Nat}
    (hcanonical : (Json.object document).Canonical)
    (hintegers : (Json.object document).IntegersOnly) (hunmarked : UnmarkedMembers document)
    (hdepth : (Json.object document).depth ≤ room) :
    Reads (Json.document room) (.object document) document := by
  cases room with
  | zero => cases hdepth
  | succ room =>
    rw [Canonical, canonicalMembers_iff] at hcanonical
    rw [IntegersOnly, integersOnlyMembers_iff] at hintegers
    rw [unmarkedMembers_iff] at hunmarked
    rw [depth, Nat.succ_le_succ_iff, depthMembers_le_iff] at hdepth
    have htakes : ∀ member ∈ document, TakesBack (value room) member.2 := by
      intro member hmember
      exact takesBack_valueIn parse (hcanonical.2 member hmember) (hintegers member hmember)
        (hunmarked member hmember) (hdepth member hmember)
    intro rest _
    rw [bytes_object]
    exact members_of_takesBack htakes hcanonical.1 rest

theorem readWhole_of_reads {α : Type} {reader : Reader α} {value : Json} {found : α}
    (h : Reads reader value found) : readWhole reader value.bytes = .ok found := by
  have hread := h [] rfl
  rw [List.append_nil] at hread
  rw [readWhole, whole, hread]
  rfl

/-- A value without double-precision numbers and without marked objects that is not nested too
deeply is read back from its bytes. -/
theorem parse_bytes {v : Json} (hcanonical : v.Canonical) (hintegers : v.IntegersOnly)
    (hunmarked : v.Unmarked) (hdepth : v.depth ≤ maxDepth) : parse v.bytes = .ok v := by
  rw [parse_eq_readWhole]
  exact readWhole_of_reads (takesBack_valueIn parse hcanonical hintegers hunmarked hdepth)

end PathStore.Json

namespace PathStore

/-- The document is canonical, its numbers are integers, no object inside it begins with the mark,
and it is nested no deeper than the reader follows. -/
structure Document.IsFaithful (document : Document) : Prop where
  canonical : (Json.object document).Canonical
  integersOnly : (Json.object document).IntegersOnly
  unmarked : Json.UnmarkedMembers document
  depth : (Json.object document).depth ≤ Json.maxDepth

/-- Such a document is read back from its bytes, and may itself begin with the mark. -/
theorem Document.IsFaithful.decodeBody_bytes {document : Document}
    (h : Document.IsFaithful document) :
    decodeBody (Json.object document).bytes = .ok document := by
  have hreads := Json.reads_document h.canonical h.integersOnly h.unmarked h.depth
  rw [decodeBody, Json.parseDocument, Json.readWhole_of_reads hreads]
  rfl

end PathStore
