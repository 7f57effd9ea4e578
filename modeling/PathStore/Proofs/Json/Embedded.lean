import PathStore.Proofs.Json.Parsed

/-!
# Texts inside a text

A text that stands behind a mark is shorter than the one it is in, so the reader of whole texts
never runs out of fuel and is the reader of values at every level.  Which objects with a mark can be
read follows: those that hold the mark alone, with a text behind it that denotes a value.  What has
been read never looks like that, since another key came before the mark in its own text.
-/

namespace PathStore.Json

/-- Only what the first reader yields matters to the second. -/
theorem bind_congr_of_ok {ε α β : Type} {x : Except ε α} {f g : α → Except ε β}
    (h : ∀ a, x = .ok a → f a = g a) : x >>= f = x >>= g := by
  cases x with
  | error error => rfl
  | ok a => exact h a rfl

/-- The readers do the same with all byte strings of at most this length. -/
def AgreeUpTo {α : Type} (n : Nat) (reader other : Reader α) : Prop :=
  ∀ ⦃rest⦄, rest.length ≤ n → reader rest = other rest

section congruence

variable {n : Nat} {rest : Bytes}

theorem itemsAfter_congr {α : Type} {property : α → Prop} {item other : Reader α}
    (hyields : Yields item property) (hagree : AgreeUpTo n item other) (fuel : Bytes)
    (done : List α) (hlength : rest.length ≤ n) :
    itemsAfter item fuel done rest = itemsAfter other fuel done rest := by
  induction fuel generalizing done rest with
  | nil => rfl
  | cons step fuel ih =>
    rw [itemsAfter, itemsAfter]
    split
    · rfl
    · rfl
    · rename_i inside hmore
      have hinside := (length_of_anotherItem hmore).trans hlength
      rw [← hagree hinside]
      split
      · rfl
      · rename_i hread
        exact ih _ ((hyields hread).length_le.trans hinside)

theorem items_congr {α : Type} {property : α → Prop} {item other : Reader α}
    (hyields : Yields item property) (hagree : AgreeUpTo n item other) :
    AgreeUpTo n (items item) (items other) := by
  intro rest hlength
  rw [items, items, itemsAfter_congr hyields hagree rest [] hlength]

/-- Members behind those that are done are read alike. -/
theorem membersAfter_congr {property : Json → Prop} {reader other : Reader Json}
    (hyields : Yields reader property) (hagree : AgreeUpTo n reader other) (fuel : Bytes)
    (first : Bool) (done : Document) (hlength : rest.length ≤ n) :
    membersAfter reader fuel first done rest = membersAfter other fuel first done rest := by
  induction fuel generalizing first done rest with
  | nil => rfl
  | cons step fuel ih =>
    rw [membersAfter, membersAfter]
    split
    · rfl
    · rfl
    · rename_i inside hmore
      apply bind_congr_of_ok
      intro found hkey
      apply bind_congr_of_ok
      intro beforeValue hcolon
      have hkey := (yields_quoted hkey).length_le.trans (length_of_anotherMember hmore)
      have hbefore := ((length_of_colon hcolon).trans hkey).trans hlength
      rw [← hagree hbefore]
      split
      · rfl
      · rename_i hvalue
        exact ih _ _ ((hyields hvalue).length_le.trans hbefore)

theorem members_congr {property : Json → Prop} {reader other : Reader Json}
    (hyields : Yields reader property) (hagree : AgreeUpTo n reader other) :
    AgreeUpTo n (members reader) (members other) := by
  intro rest hlength
  rw [members, members, membersAfter_congr hyields hagree rest true [] hlength]

variable {embedded other : Bytes → Except ReadError Json}

/-- The text behind a mark is shorter, so readers of shorter texts are enough. -/
theorem markedValue_congr
    (htexts : ∀ text, text.length ≤ rest.length → embedded text = other text) :
    markedValue embedded rest = markedValue other rest := by
  apply bind_congr_of_ok
  intro beforeText hcolon
  apply bind_congr_of_ok
  intro found htext
  have hlength := length_of_stringNamed htext
  have hbefore := length_of_colon hcolon
  dsimp only
  rw [htexts (Utf8.encode found.1) (by omega)]

/-- What begins with a brace is read alike, be it an object or a mark. -/
theorem bracedValue_congr {property : Json → Prop} {reader second : Reader Json}
    (hyields : Yields reader property) (hagree : AgreeUpTo n reader second)
    (htexts : ∀ text, text.length ≤ rest.length → embedded text = other text)
    (hlength : rest.length ≤ n) :
    bracedValue embedded reader rest = bracedValue other second rest := by
  rw [bracedValue, bracedValue]
  split
  · rename_i inside hinside
    exact markedValue_congr fun text htext ↦
      htexts text (htext.trans (length_of_behindMark? hinside))
  · rw [members_congr hyields hagree hlength]

/-- Readers of embedded texts that do the same with all shorter texts give the same value. -/
theorem valueIn_congr (htexts : ∀ text, text.length < n → embedded text = other text)
    (room : Nat) : AgreeUpTo n (valueIn embedded room) (valueIn other room) := by
  induction room with
  | zero => exact fun _ _ ↦ rfl
  | succ room ih =>
    intro rest hlength
    have hyields : Yields (valueIn embedded room) fun _ ↦ True :=
      yields_valueIn ⟨fun _ _ ↦ trivial, fun _ _ ↦ trivial, fun _ _ _ ↦ trivial⟩
        (fun _ _ _ ↦ trivial) room
    have hskip := length_skipBlanks rest
    rw [valueIn, valueIn, valueWith, valueWith]
    split
    · rfl
    · rename_i b inside hinside
      rw [hinside, List.length_cons] at hskip
      have hinner : inside.length ≤ n := by omega
      dsimp only
      rw [items_congr hyields ih hinner, bracedValue_congr hyields ih
        (fun text htext ↦ htexts text (by omega)) hinner]

end congruence

/-- A text of the same length as the fuel or shorter never uses the fuel up. -/
theorem parseWithin_congr {fuel other input : Bytes} (hfuel : input.length ≤ fuel.length)
    (hother : input.length ≤ other.length) : parseWithin fuel input = parseWithin other input := by
  induction fuel generalizing other input with
  | nil =>
    obtain rfl := List.eq_nil_of_length_eq_zero (Nat.le_zero.mp hfuel)
    cases other with
    | nil => rfl
    | cons step other => rfl
  | cons step fuel ih =>
    cases other with
    | nil =>
      obtain rfl := List.eq_nil_of_length_eq_zero (Nat.le_zero.mp hother)
      rfl
    | cons step other =>
      rw [List.length_cons] at hfuel hother
      have htexts : ∀ text : Bytes, text.length < input.length →
          parseWithin fuel text = parseWithin other text := by
        intro text htext
        exact ih (by omega) (by omega)
      rw [parseWithin, parseWithin, readWhole, readWhole, whole, whole,
        valueIn_congr htexts maxDepth le_rfl]

/-- A whole text is read as a value, and so are the texts inside it. -/
theorem parse_eq_readWhole (input : Bytes) : parse input = readWhole (value maxDepth) input := by
  have htexts : ∀ text : Bytes, text.length < input.length →
      parseWithin input text = parse text := by
    intro text htext
    exact parseWithin_congr htext.le le_rfl
  have hmore : parse input = parseWithin (0 :: input) input :=
    parseWithin_congr le_rfl (Nat.le_succ _)
  rw [hmore, parseWithin, readWhole, readWhole, whole, whole, value,
    valueIn_congr htexts maxDepth le_rfl]

/-- The object stands for the value of a text: the mark is its only key, and behind it is a text
that denotes a value. -/
def StandsForText (members : Document) : Prop :=
  ∃ text v, members = [(textMark, .string text)] ∧ parse (Utf8.encode text) = .ok v

mutual

/-- Every object in the value that begins with the mark stands for the value of a text. -/
def MarksReadable : Json → Prop
  | .array items => MarksReadableItems items
  | .object members => (isMarked members → StandsForText members) ∧ MarksReadableMembers members
  | _ => True
termination_by structural value => value

def MarksReadableItems : List Json → Prop
  | [] => True
  | item :: rest => item.MarksReadable ∧ MarksReadableItems rest
termination_by structural items => items

def MarksReadableMembers : List (String × Json) → Prop
  | [] => True
  | (_, value) :: rest => value.MarksReadable ∧ MarksReadableMembers rest
termination_by structural members => members

end

theorem marksReadableItems_iff {items : List Json} :
    MarksReadableItems items ↔ ∀ item ∈ items, item.MarksReadable := by
  induction items with
  | nil => simp [MarksReadableItems]
  | cons item rest ih => simp [MarksReadableItems, ih]

theorem marksReadableMembers_iff {members : Document} :
    MarksReadableMembers members ↔ ∀ member ∈ members, member.2.MarksReadable := by
  induction members with
  | nil => simp [MarksReadableMembers]
  | cons member rest ih => simp [MarksReadableMembers, ih]

/-- What has been read holds a mark only where it cannot be read again. -/
theorem inherited_unmarked : Inherited fun v ↦ v.MarksReadable → v.Unmarked where
  scalar := by
    rintro v (rfl | ⟨b, rfl⟩ | ⟨s, rfl⟩ | ⟨n, -, rfl⟩) _ <;> trivial
  array := by
    intro items hitems
    rw [MarksReadable, marksReadableItems_iff, Unmarked, unmarkedItems_iff]
    intro hreadable item hitem
    exact hitems item hitem (hreadable item hitem)
  object := by
    intro document hmembers hkey
    rw [MarksReadable, marksReadableMembers_iff, Unmarked, unmarkedMembers_iff]
    rintro ⟨hmarks, hreadable⟩
    refine ⟨?_, fun member hmember ↦ hmembers.value member hmember (hreadable member hmember)⟩
    by_contra hmarked
    obtain ⟨text, v, rfl, -⟩ := hmarks (Bool.eq_true_of_not_eq_false hmarked)
    obtain ⟨member, hmember, hother⟩ := hkey (List.cons_ne_nil _ _)
    obtain rfl := List.mem_singleton.mp hmember
    exact hother rfl

end PathStore.Json
