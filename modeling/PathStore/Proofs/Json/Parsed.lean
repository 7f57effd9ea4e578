import Mathlib.Algebra.Group.Int.Defs
import Mathlib.Data.List.TakeWhile
import Mathlib.Tactic.SplitIfs
import PathStore.Proofs.Json.Reader
import PathStore.Storage.Documents

/-!
# What has been read

A property that the parts of a value hand on to it holds of everything that a reader yields, also of
what it takes from a text inside the one that it reads.  Two such properties say in which form a
value comes out of its text: it is canonical, and what it has in place of an object with a mark can
never be read again.  That the double-precision numbers in it are finite is not shown here, so
canonical is only what has none of them.
-/

namespace PathStore.Json

theorem exists_of_bind {ε α β : Type} {x : Except ε α} {f : α → Except ε β} {b : β}
    (h : x >>= f = .ok b) : ∃ a, x = .ok a ∧ f a = .ok b := by
  cases x with
  | error error => cases h
  | ok a => exact ⟨a, rfl, h⟩

/-- What a reader finds has the property, and no more bytes are left than there were. -/
structure Found {α : Type} (property : α → Prop) (rest : Bytes) (value : α) (behind : Bytes) :
    Prop where
  holds : property value
  length_le : behind.length ≤ rest.length

/-- What has been found in a part of the text has been found in the text. -/
theorem Found.mono {α : Type} {property : α → Prop} {inside rest behind : Bytes} {value : α}
    (h : Found property inside value behind) (hlength : inside.length ≤ rest.length) :
    Found property rest value behind :=
  ⟨h.holds, h.length_le.trans hlength⟩

theorem Found.cons {α : Type} {property : α → Prop} {rest behind : Bytes} {value : α}
    (h : Found property rest value behind) (b : UInt8) : Found property (b :: rest) value behind :=
  h.mono (Nat.le_succ _)

/-- All that the reader yields has the property. -/
def Yields {α : Type} (reader : Reader α) (property : α → Prop) : Prop :=
  ∀ ⦃rest value behind⦄, reader rest = .ok (value, behind) → Found property rest value behind

/-- What a whole text denotes has been read from its front. -/
theorem exists_of_readWhole {α : Type} {reader : Reader α} {input : Bytes} {a : α}
    (h : readWhole reader input = .ok a) : ∃ behind, reader input = .ok (a, behind) := by
  rw [readWhole, whole] at h
  cases hread : reader input with
  | error fault => rw [hread] at h; cases h
  | ok found =>
    rcases found with ⟨value, behind⟩
    simp only [hread, bind, Except.bind] at h
    split at h
    · obtain rfl := Except.ok.inj h
      exact ⟨behind, rfl⟩
    · cases h

theorem length_skipBlanks (rest : Bytes) : (skipBlanks rest).length ≤ rest.length :=
  List.length_dropWhile_le _ rest

/-- Letters use up bytes. -/
theorem length_of_literal {letters : List Char} {rest behind : Bytes}
    (h : literal letters rest = .ok behind) : behind.length ≤ rest.length := by
  induction letters generalizing rest with
  | nil => exact (congrArg List.length (Except.ok.inj h)).ge
  | cons c letters ih =>
    cases rest with
    | nil => cases h
    | cons b rest =>
      rw [literal] at h
      split at h
      · exact (ih h).trans (Nat.le_succ _)
      · cases h

def Number.Fits : Number → Prop
  | .integer i => (Number.integer i).InRange
  | .double _ => True

section numbers

variable {negative : Bool} {significand : Nat}

/-- Scaling gives a number of double precision. -/
theorem yields_finish (exponent : Int) :
    Yields (finish negative significand exponent) Number.Fits := by
  intro rest n behind h
  rw [finish] at h
  split at h
  · cases h
    exact ⟨trivial, le_rfl⟩
  · cases h

theorem yields_exponentDigits (start : Int) (down : Bool) (exponent : Nat) :
    Yields (exponentDigits negative significand start down exponent) Number.Fits := by
  intro rest n behind h
  induction rest generalizing exponent with
  | nil => exact yields_finish _ h
  | cons b rest ih =>
    rw [exponentDigits] at h
    split_ifs at h
    · cases h
    · cases h
      exact Found.cons ⟨trivial, List.length_dropWhile_le _ rest⟩ b
    · exact (ih _ h).cons b
    · exact yields_finish _ h
    · exact yields_finish _ h

theorem length_skipSign (rest : Bytes) (sign : Bool) :
    (if sign then rest.drop 1 else rest).length ≤ rest.length := by
  split
  · rw [List.length_drop]
    exact Nat.sub_le _ _
  · exact le_rfl

theorem yields_exponentPart (start : Int) :
    Yields (exponentPart negative significand start) Number.Fits := by
  intro rest n behind h
  have hsign := length_skipSign rest
    (decide (rest.head? = some '-'.toUInt8) || decide (rest.head? = some '+'.toUInt8))
  rw [exponentPart] at h
  split at h
  · cases h
  · rename_i b digits hdigits
    rw [hdigits] at hsign
    split at h
    · exact ((yields_exponentDigits _ _ _ h).cons b).mono hsign
    · cases h

theorem yields_exponentOrEnd (exponent : Int) :
    Yields (exponentOrEnd negative significand exponent) Number.Fits := by
  intro rest n behind h
  cases rest with
  | nil => exact yields_finish _ h
  | cons b rest =>
    rw [exponentOrEnd] at h
    split at h
    · exact (yields_exponentPart _ h).cons b
    · exact yields_finish _ h

theorem yields_fractionDigits (exponent : Int) (count : Nat) :
    Yields (fractionDigits negative significand exponent count) Number.Fits := by
  intro rest n behind h
  induction rest generalizing significand count with
  | nil =>
    rw [fractionDigits] at h
    split at h
    · cases h
    · exact yields_exponentOrEnd _ h
  | cons b rest ih =>
    rw [fractionDigits] at h
    split_ifs at h
    · exact (ih _ h).cons b
    · exact ((yields_exponentOrEnd _ h).mono (List.length_dropWhile_le _ rest)).cons b
    · cases h
    · exact yields_exponentOrEnd _ h

theorem yields_longInteger (exponent : Nat) :
    Yields (longInteger negative significand exponent) Number.Fits := by
  intro rest n behind h
  induction rest generalizing exponent with
  | nil => exact yields_finish _ h
  | cons b rest ih =>
    rw [longInteger] at h
    split_ifs at h
    · exact (ih _ h).cons b
    · exact (yields_fractionDigits _ _ h).cons b
    · exact yields_exponentOrEnd _ h

/-- A significand of 64 bits gives an integer of 64 bits, or a number of double precision. -/
theorem fits_integerNumber (negative : Bool) (h : significand < 2 ^ 64) :
    (integerNumber negative significand).Fits := by
  rw [integerNumber]
  split_ifs with hsign hdouble
  · refine ⟨?_, ?_⟩ <;> omega
  · trivial
  · rw [Bool.or_eq_true, decide_eq_true_eq, decide_eq_true_eq, Nat.pow_eq] at hdouble
    refine ⟨?_, ?_⟩ <;> omega

theorem yields_integerEnd (h : significand < 2 ^ 64) :
    Yields (integerEnd negative significand) Number.Fits := by
  intro rest n behind hread
  cases rest with
  | nil =>
    cases hread
    exact ⟨fits_integerNumber negative h, le_rfl⟩
  | cons b rest =>
    rw [integerEnd] at hread
    split_ifs at hread
    · exact (yields_fractionDigits _ _ hread).cons b
    · exact (yields_exponentPart _ hread).cons b
    · cases hread
      exact ⟨fits_integerNumber negative h, le_rfl⟩

theorem yields_integerDigits (h : significand < 2 ^ 64) :
    Yields (integerDigits negative significand) Number.Fits := by
  intro rest n behind hread
  induction rest generalizing significand with
  | nil => exact yields_integerEnd h hread
  | cons b rest ih =>
    rw [integerDigits] at hread
    split_ifs at hread with hdigit hfits
    · exact (ih (of_decide_eq_true hfits) hread).cons b
    · exact yields_longInteger _ hread
    · exact yields_integerEnd h hread

/-- An integer that has been read has 64 bits. -/
theorem yields_numeral (negative : Bool) : Yields (numeral negative) Number.Fits := by
  intro rest n behind h
  cases rest with
  | nil => cases h
  | cons b rest =>
    have hvalue : digitValue b < 2 ^ 64 := by
      have hb := b.toNat_lt
      rw [digitValue]
      omega
    rw [numeral] at h
    split_ifs at h
    · cases h
    · exact (yields_integerEnd (by decide) h).cons b
    · exact (yields_integerDigits hvalue h).cons b
    · cases h

end numbers

section strings

variable {rest behind : Bytes}

theorem length_encodeChar_le (c : Char) : (Utf8.encodeChar c).length ≤ 4 := by
  rw [Utf8.encodeChar]
  split_ifs <;> simp

theorem length_of_fourDigits {n : Nat} (h : fourDigits rest = .ok (n, behind)) :
    behind.length + 4 = rest.length := by
  unfold fourDigits at h
  split at h
  · split at h
    · cases h
      rfl
    · cases h
  · cases h

theorem length_of_lowSurrogate {n : Nat} (h : lowSurrogate rest = .ok (n, behind)) :
    behind.length ≤ rest.length := by
  unfold lowSurrogate at h
  split at h
  · cases h
  · split_ifs at h
    · split at h
      · cases h
      · split_ifs at h
        · obtain ⟨⟨low, digits⟩, hdigits, hlow⟩ := exists_of_bind h
          have hlength := length_of_fourDigits hdigits
          dsimp only at hlow
          split_ifs at hlow
          · cases hlow
            simp only [List.length_cons]
            omega
          · cases hlow
        · cases h
    · cases h

theorem length_of_numberedChar {c : Char} (h : numberedChar rest = .ok (c, behind)) :
    behind.length + 4 ≤ rest.length := by
  rw [numberedChar] at h
  obtain ⟨⟨n, digits⟩, hdigits, h⟩ := exists_of_bind h
  have hlength := length_of_fourDigits hdigits
  dsimp only at h
  split_ifs at h
  · cases h
  · obtain ⟨⟨low, others⟩, hlow, h⟩ := exists_of_bind h
    have hothers := length_of_lowSurrogate hlow
    dsimp only at h
    obtain ⟨-, rfl⟩ := Prod.mk.inj (Except.ok.inj h)
    omega
  · cases h
    exact hlength.le

/-- An escape is no shorter than what it stands for. -/
theorem length_of_escape {bytes : Bytes} (h : escape rest = .ok (bytes, behind)) :
    bytes.length + behind.length ≤ rest.length := by
  cases rest with
  | nil => cases h
  | cons letter rest =>
    rw [escape] at h
    split at h
    · obtain ⟨⟨c, digits⟩, hdigits, hbytes⟩ := exists_of_bind h
      have hlength := length_of_numberedChar hdigits
      have hchar := length_encodeChar_le c
      cases hbytes
      rw [List.length_cons]
      omega
    · split at h
      · cases h
        exact (Nat.add_comm _ _).le
      · cases h

/-- What a string stands for is no longer than its text. -/
theorem length_of_stringBytes {fuel done bytes : Bytes}
    (h : stringBytes fuel done rest = .ok (bytes, behind)) :
    bytes.length + behind.length ≤ done.length + rest.length := by
  induction fuel generalizing done rest with
  | nil => cases h
  | cons step fuel ih =>
    cases rest with
    | nil => cases h
    | cons b rest =>
      rw [stringBytes] at h
      split_ifs at h
      · cases h
        rw [List.length_reverse, List.length_cons]
        omega
      · split at h
        · rename_i hescape
          have hlength := length_of_escape hescape
          have hrest := ih h
          rw [List.length_append, List.length_reverse] at hrest
          rw [List.length_cons]
          omega
        · cases h
      · cases h
      · have hrest := ih h
        rw [List.length_cons] at hrest ⊢
        omega

/-- A string is no longer than what it is read from. -/
theorem length_of_quoted {text : String} (h : quoted rest = .ok (text, behind)) :
    (Utf8.encode text).length + behind.length ≤ rest.length := by
  rw [quoted] at h
  obtain ⟨⟨bytes, after⟩, hbytes, h⟩ := exists_of_bind h
  have hlength := length_of_stringBytes hbytes
  dsimp only at h
  split at h
  · rename_i hdecode
    cases h
    rw [Utf8.encode_of_decode hdecode]
    simpa using hlength
  · cases h

theorem yields_quoted : Yields quoted fun _ ↦ True :=
  fun _ _ _ h ↦ ⟨trivial, (Nat.le_add_left _ _).trans (length_of_quoted h)⟩

end strings

section parts

variable {α : Type} {property : α → Prop} {rest behind : Bytes}

theorem length_of_anotherItem {first more : Bool}
    (h : anotherItem first rest = .ok (more, behind)) : behind.length ≤ rest.length := by
  have hskip := length_skipBlanks rest
  unfold anotherItem at h
  split at h
  · cases h
  · rename_i b inside hinside
    have hinner := length_skipBlanks inside
    rw [hinside, List.length_cons] at hskip
    simp only [failAtNext, fail] at h
    split_ifs at h
    · grind
    · grind
    · grind

/-- Items have the property if those before them had it. -/
theorem forall_of_itemsAfter {item : Reader α} (hitem : Yields item property) {fuel : Bytes}
    {done found : List α} (hdone : ∀ value ∈ done, property value)
    (h : itemsAfter item fuel done rest = .ok (found, behind)) :
    Found (fun found ↦ ∀ value ∈ found, property value) rest found behind := by
  induction fuel generalizing done rest with
  | nil => cases h
  | cons step fuel ih =>
    rw [itemsAfter] at h
    split at h
    · cases h
    · rename_i hmore
      cases h
      exact ⟨fun value hvalue ↦ hdone value (List.mem_reverse.mp hvalue),
        length_of_anotherItem hmore⟩
    · rename_i hmore
      split at h
      · cases h
      · rename_i hread
        have hfound := hitem hread
        exact (ih (List.forall_mem_cons.mpr ⟨hfound.holds, hdone⟩) h).mono
          (hfound.length_le.trans (length_of_anotherItem hmore))

theorem length_of_closeArray (h : closeArray rest = .ok behind) :
    behind.length ≤ rest.length := by
  have hskip := length_skipBlanks rest
  simp only [closeArray, failAtNext, fail] at h
  grind

/-- What a reader of items yields goes over to all of them. -/
theorem yields_items {item : Reader α} (hitem : Yields item property) :
    Yields (items item) fun found ↦ ∀ value ∈ found, property value := by
  intro rest found behind h
  obtain ⟨⟨values, inside⟩, hitems, h⟩ := exists_of_bind h
  obtain ⟨after, hclose, hfound⟩ := exists_of_bind h
  cases hfound
  have hvalues := forall_of_itemsAfter hitem (List.forall_mem_nil _) hitems
  exact ⟨hvalues.holds, (length_of_closeArray hclose).trans hvalues.length_le⟩

theorem length_of_anotherMember {first more : Bool}
    (h : anotherMember first rest = .ok (more, behind)) : behind.length ≤ rest.length := by
  have hskip := length_skipBlanks rest
  unfold anotherMember at h
  split at h
  · cases h
  · rename_i b inside hinside
    have hinner := length_skipBlanks inside
    rw [hinside, List.length_cons] at hskip
    simp only [failAtNext, fail] at h
    grind

theorem length_of_colon (h : colon rest = .ok behind) : behind.length ≤ rest.length := by
  have hskip := length_skipBlanks rest
  simp only [colon, failAtNext, fail] at h
  grind

theorem length_of_closeObject (h : closeObject rest = .ok behind) :
    behind.length ≤ rest.length := by
  have hskip := length_skipBlanks rest
  simp only [closeObject, failAtNext, fail] at h
  grind

/-- The keys ascend, and the values have the property. -/
structure Members (property : Json → Prop) (document : Document) : Prop where
  ascending : Entries.Ascending document
  value : ∀ member ∈ document, property member.2

/-- A member with the property may be put in, also in place of another. -/
theorem Members.insert {property : Json → Prop} {document : Document}
    (h : Members property document) (key : String) {value : Json} (hvalue : property value) :
    Members property (Entries.insert document key value) where
  ascending := Entries.ascending_insert h.ascending key value
  value := by
    intro member hmember
    rcases Entries.mem_insert hmember with rfl | hmember
    · exact hvalue
    · exact h.value member hmember

/-- A step of reading members reads a key, a colon and a value, and puts the value in. -/
theorem membersAfter_step {reader : Reader Json} {step : UInt8} {fuel : Bytes} {first : Bool}
    {done document : Document}
    (h : membersAfter reader (step :: fuel) first done rest = .ok (document, behind)) :
    (anotherMember first rest = .ok (false, behind) ∧ document = done) ∨
      ∃ key value inside afterKey beforeValue afterValue,
        anotherMember first rest = .ok (true, inside) ∧ quoted inside = .ok (key, afterKey) ∧
        colon afterKey = .ok beforeValue ∧ reader beforeValue = .ok (value, afterValue) ∧
        membersAfter reader fuel false (Entries.insert done key value) afterValue =
          .ok (document, behind) := by
  rw [membersAfter] at h
  split at h
  · cases h
  · rename_i hmore
    cases h
    exact .inl ⟨hmore, rfl⟩
  · rename_i inside hmore
    obtain ⟨⟨key, afterKey⟩, hkey, h⟩ := exists_of_bind h
    obtain ⟨beforeValue, hcolon, h⟩ := exists_of_bind h
    split at h
    · cases h
    · rename_i value afterValue hvalue
      exact .inr ⟨key, value, inside, afterKey, beforeValue, afterValue, hmore, hkey, hcolon,
        hvalue, h⟩

theorem members_of_membersAfter {reader : Reader Json} {property : Json → Prop}
    (hreader : Yields reader property) {fuel : Bytes} {first : Bool} {done document : Document}
    (hdone : Members property done)
    (h : membersAfter reader fuel first done rest = .ok (document, behind)) :
    Found (Members property) rest document behind := by
  induction fuel generalizing first done rest with
  | nil => cases h
  | cons step fuel ih =>
    rcases membersAfter_step h with ⟨hmore, rfl⟩ | ⟨key, value, inside, afterKey, beforeValue,
      afterValue, hmore, hkey, hcolon, hvalue, hrest⟩
    · exact ⟨hdone, length_of_anotherMember hmore⟩
    · have hfound := hreader hvalue
      have hlength := (yields_quoted hkey).length_le
      exact (ih (hdone.insert key hfound.holds) hrest).mono
        (hfound.length_le.trans ((length_of_colon hcolon).trans
          (hlength.trans (length_of_anotherMember hmore))))

/-- A key that has come stays, whatever comes behind it. -/
theorem isSome_get?_of_membersAfter {reader : Reader Json} {key : String} {fuel : Bytes}
    {first : Bool} {done document : Document} (hdone : (Entries.get? done key).isSome)
    (h : membersAfter reader fuel first done rest = .ok (document, behind)) :
    (Entries.get? document key).isSome := by
  induction fuel generalizing first done rest with
  | nil => cases h
  | cons step fuel ih =>
    rcases membersAfter_step h with
      ⟨-, rfl⟩ | ⟨other, value, -, -, -, afterValue, -, -, -, -, hrest⟩
    · exact hdone
    · refine ih ?_ hrest
      rw [Entries.get?_insert]
      split
      · rfl
      · exact hdone

/-- What a reader of values yields goes over to all members. -/
theorem yields_members {reader : Reader Json} {property : Json → Prop}
    (hreader : Yields reader property) : Yields (members reader) (Members property) := by
  intro rest document behind h
  obtain ⟨⟨found, inside⟩, hmembers, h⟩ := exists_of_bind h
  obtain ⟨after, hclose, hfound⟩ := exists_of_bind h
  cases hfound
  have hdocument := members_of_membersAfter hreader ⟨.nil, List.forall_mem_nil _⟩ hmembers
  exact ⟨hdocument.holds, (length_of_closeObject hclose).trans hdocument.length_le⟩

/-- If the mark is not the first key of an object, some key of it is not the mark. -/
theorem exists_key_of_members {reader : Reader Json} {document : Document}
    (hmark : behindMark? rest = none) (h : members reader rest = .ok (document, behind))
    (hne : document ≠ []) : ∃ member ∈ document, member.1 ≠ textMark := by
  obtain ⟨⟨found, inside⟩, hmembers, h⟩ := exists_of_bind h
  obtain ⟨after, hclose, hfound⟩ := exists_of_bind h
  cases hfound
  cases rest with
  | nil => cases hmembers
  | cons b rest =>
    rcases membersAfter_step hmembers with ⟨-, rfl⟩ | ⟨key, value, inside, afterKey, -,
      afterValue, hmore, hkey, -, -, hrest⟩
    · exact absurd rfl hne
    · have hother : key ≠ textMark := by
        intro heq
        rw [behindMark?, hmore] at hmark
        simp only [hkey, if_pos heq, reduceCtorEq] at hmark
      have hsome : (Entries.get? document key).isSome := by
        refine isSome_get?_of_membersAfter ?_ hrest
        rw [Entries.get?_insert, if_pos rfl]
        rfl
      obtain ⟨other, hother'⟩ := Option.isSome_iff_exists.mp hsome
      exact ⟨(key, other), Entries.mem_of_get? hother', hother⟩

end parts

section values

variable {embedded : Bytes → Except ReadError Json} {nested : Option (Reader Json)} {v : Json}
  {rest behind : Bytes}

/-- A refusal never succeeds. -/
theorem exists_wrongType {α : Type} (expected : String) (rest : Bytes) :
    ∃ fault, (wrongType expected rest : Except Fault α) = .error fault := by
  cases hread : (wrongType expected rest : Except Fault α) with
  | error fault => exact ⟨fault, rfl⟩
  | ok found =>
    simp only [wrongType, fail, failAtNext, bind, Except.bind] at hread
    grind

theorem length_of_stringNamed {expected text : String}
    (h : stringNamed expected rest = .ok (text, behind)) :
    (Utf8.encode text).length + behind.length ≤ rest.length := by
  have hskip := length_skipBlanks rest
  rw [stringNamed, expecting] at h
  split at h
  · cases h
  · rename_i b inside hinside
    rw [hinside, List.length_cons] at hskip
    split at h
    · have hlength := length_of_quoted h
      rw [List.drop_one, List.tail_cons] at hlength
      omega
    · obtain ⟨fault, hfault⟩ := exists_wrongType (α := String × Bytes) expected (b :: inside)
      rw [hfault] at h
      cases h

theorem length_of_behindMark? (h : behindMark? rest = some behind) :
    behind.length ≤ rest.length := by
  rw [behindMark?] at h
  split at h
  · rename_i hmore
    split at h
    · rename_i hkey
      split at h
      · cases h
        exact (yields_quoted hkey).length_le.trans (length_of_anotherMember hmore)
      · cases h
    · cases h
  · cases h

/-- What stands behind a mark is the value of a text that is no longer than what is left. -/
theorem markedValue_cases (h : markedValue embedded rest = .ok (v, behind)) :
    ∃ text, embedded text = .ok v ∧ text.length ≤ rest.length ∧ behind.length ≤ rest.length := by
  obtain ⟨beforeText, hcolon, h⟩ := exists_of_bind h
  obtain ⟨⟨text, afterText⟩, htext, h⟩ := exists_of_bind h
  have hbefore := length_of_colon hcolon
  have hlength := length_of_stringNamed htext
  dsimp only at h
  split at h
  · rename_i value hvalue
    obtain ⟨after, hclose, h⟩ := exists_of_bind h
    have hafter := length_of_closeObject hclose
    cases h
    exact ⟨Utf8.encode text, hvalue, by omega, by omega⟩
  · cases h

/-- The value is no array and no object, and its number is one that can be read. -/
def IsReadScalar (v : Json) : Prop :=
  v = .null ∨ (∃ b, v = .bool b) ∨ (∃ s, v = .string s) ∨ ∃ n : Number, n.Fits ∧ v = .number n

/-- A value that is read is a scalar, or stands behind a bracket that has been read. -/
theorem valueWith_cases (h : valueWith embedded nested rest = .ok (v, behind)) :
    Found IsReadScalar rest v behind ∨
      ∃ reader inside, nested = some reader ∧ inside.length < rest.length ∧
        ((∃ found, items reader inside = .ok (found, behind) ∧ v = .array found) ∨
          bracedValue embedded reader inside = .ok (v, behind)) := by
  have hskip := length_skipBlanks rest
  simp only [valueWith, fail, failAtNext] at h
  split at h
  · cases h
  rename_i b inside hinside
  rw [hinside, List.length_cons] at hskip
  have hliteral : ∀ letters, literal letters inside = .ok behind →
      behind.length ≤ rest.length := by
    intro letters hread
    exact (length_of_literal hread).trans ((Nat.le_succ _).trans hskip)
  split_ifs at h
  iterate 3
    · obtain ⟨after, hafter, hv⟩ := exists_of_bind h
      cases hv
      exact .inl ⟨by simp [IsReadScalar], hliteral _ hafter⟩
  · obtain ⟨⟨n, after⟩, hafter, hv⟩ := exists_of_bind h
    cases hv
    have hn := yields_numeral _ hafter
    refine .inl ⟨?_, (hn.cons b).length_le.trans hskip⟩
    exact .inr (.inr (.inr ⟨n, hn.holds, rfl⟩))
  · obtain ⟨⟨n, after⟩, hafter, hv⟩ := exists_of_bind h
    cases hv
    have hn := yields_numeral _ hafter
    refine .inl ⟨?_, hn.length_le.trans hskip⟩
    exact .inr (.inr (.inr ⟨n, hn.holds, rfl⟩))
  · obtain ⟨⟨text, after⟩, hafter, hv⟩ := exists_of_bind h
    cases hv
    refine .inl ⟨.inr (.inr (.inl ⟨text, rfl⟩)), ?_⟩
    exact ((yields_quoted hafter).cons b).length_le.trans hskip
  · split at h
    · cases h
    · rename_i reader
      obtain ⟨⟨found, after⟩, hfound, hv⟩ := exists_of_bind h
      cases hv
      exact .inr ⟨reader, inside, rfl, hskip, .inl ⟨found, hfound, rfl⟩⟩
  · split at h
    · cases h
    · rename_i reader
      exact .inr ⟨reader, inside, rfl, hskip, .inr h⟩

/-- The property goes over from the parts of a value to the value.  An object that has been read
does not consist of the mark alone. -/
structure Inherited (property : Json → Prop) : Prop where
  scalar : ∀ v, IsReadScalar v → property v
  array : ∀ items, (∀ item ∈ items, property item) → property (.array items)
  object : ∀ document, Members property document →
    (document ≠ [] → ∃ member ∈ document, member.1 ≠ textMark) → property (.object document)

/-- What begins with a brace has the property, be it an object or the value of a text. -/
theorem found_bracedValue {property : Json → Prop} (hproperty : Inherited property)
    (hembedded : ∀ ⦃text v⦄, embedded text = .ok v → property v) {reader : Reader Json}
    (hreader : Yields reader property) (h : bracedValue embedded reader rest = .ok (v, behind)) :
    Found property rest v behind := by
  rw [bracedValue] at h
  split at h
  · rename_i inside hinside
    obtain ⟨text, htext, -, hlength⟩ := markedValue_cases h
    exact ⟨hembedded htext, hlength.trans (length_of_behindMark? hinside)⟩
  · rename_i hmark
    obtain ⟨⟨document, after⟩, hmembers, h⟩ := exists_of_bind h
    cases h
    have hfound := yields_members hreader hmembers
    exact ⟨hproperty.object document hfound.holds (exists_key_of_members hmark hmembers),
      hfound.length_le⟩

/-- A value has the property since its parts have it, level by level. -/
theorem yields_valueIn {property : Json → Prop} (hproperty : Inherited property)
    (hembedded : ∀ ⦃text v⦄, embedded text = .ok v → property v) (room : Nat) :
    Yields (valueIn embedded room) property := by
  induction room with
  | zero =>
    intro rest v behind h
    rcases valueWith_cases h with hscalar | ⟨reader, -, hnested, -⟩
    · exact ⟨hproperty.scalar v hscalar.holds, hscalar.length_le⟩
    · cases hnested
  | succ room ih =>
    intro rest v behind h
    rcases valueWith_cases h with hscalar | ⟨reader, inside, hnested, hlength, hinside⟩
    · exact ⟨hproperty.scalar v hscalar.holds, hscalar.length_le⟩
    · obtain rfl := Option.some.inj hnested
      rcases hinside with ⟨found, hfound, rfl⟩ | hbraced
      · have hitems := yields_items ih hfound
        exact ⟨hproperty.array found hitems.holds, hitems.length_le.trans hlength.le⟩
      · exact (found_bracedValue hproperty hembedded ih hbraced).mono hlength.le

/-- A text inside another one is shorter, so the induction is on the fuel. -/
theorem holds_of_parseWithin {property : Json → Prop} (hproperty : Inherited property)
    {fuel input : Bytes} (h : parseWithin fuel input = .ok v) : property v := by
  induction fuel generalizing input v with
  | nil => cases h
  | cons step fuel ih =>
    obtain ⟨behind, hvalue⟩ := exists_of_readWhole h
    exact (yields_valueIn hproperty (fun _ _ htext ↦ ih htext) maxDepth hvalue).holds

/-- A property that goes over from the parts of a value to the value holds of whatever a text
denotes. -/
theorem holds_of_parse {property : Json → Prop} (hproperty : Inherited property) {input : Bytes}
    (h : parse input = .ok v) : property v :=
  holds_of_parseWithin hproperty h

theorem not_isReadScalar_object (document : Document) : ¬ IsReadScalar (.object document) := by
  rintro (h | ⟨b, h⟩ | ⟨s, h⟩ | ⟨n, -, h⟩) <;> cases h

/-- Such a property holds of the members of an object too. -/
theorem Inherited.members {property : Json → Prop} (h : Inherited property) :
    Inherited fun v ↦
      property v ∧ ∀ document, v = .object document → Members property document where
  scalar := by
    intro v hscalar
    refine ⟨h.scalar v hscalar, ?_⟩
    rintro document rfl
    exact absurd hscalar (not_isReadScalar_object document)
  array := by
    intro items hitems
    exact ⟨h.array items fun item hitem ↦ (hitems item hitem).1, nofun⟩
  object := by
    intro document hmembers hkey
    have hdocument : Members property document :=
      ⟨hmembers.ascending, fun member hmember ↦ (hmembers.value member hmember).1⟩
    refine ⟨h.object document hdocument hkey, ?_⟩
    intro other hother
    exact Json.object.inj hother ▸ hdocument

/-- Such a property holds of the members of an object that a text denotes. -/
theorem members_of_parse {property : Json → Prop} (hproperty : Inherited property) {input : Bytes}
    {document : Document} (h : parse input = .ok (.object document)) : Members property document :=
  (holds_of_parse hproperty.members h).2 document rfl

/-- A property that goes over from the parts of a value to the value holds of every value that is
read. -/
theorem yields_value {property : Json → Prop} (hproperty : Inherited property) (room : Nat) :
    Yields (value room) property :=
  yields_valueIn hproperty (fun _ _ ↦ holds_of_parse hproperty) room

theorem exists_members_of_document {room : Nat} {document : Document}
    (h : Json.document room rest = .ok (document, behind)) :
    ∃ inner inside, members (value inner) inside = .ok (document, behind) := by
  simp only [Json.document, wrongType, fail, failAtNext, bind, Except.bind] at h
  cases room <;> grind

/-- Such a property holds of everything in a document that is read from what is stored. -/
theorem members_of_decodeBody {property : Json → Prop} (hproperty : Inherited property)
    {body : Bytes} {document : Document} (h : decodeBody body = .ok document) :
    Members property document := by
  have hparse : parseDocument body = .ok document := by
    rw [decodeBody] at h
    cases hparse : parseDocument body with
    | error error => rw [hparse] at h; cases h
    | ok found => rw [hparse] at h; cases h; rfl
  obtain ⟨behind, hread⟩ := exists_of_readWhole hparse
  obtain ⟨room, inside, hmembers⟩ := exists_members_of_document hread
  exact (yields_members (yields_value hproperty room) hmembers).holds

end values

/-- The value is canonical if its numbers are integers. -/
def Formed (v : Json) : Prop :=
  v.IntegersOnly → v.Canonical

/-- Being canonical but for the double-precision numbers goes over from the parts to the value. -/
theorem inherited_formed : Inherited Formed where
  scalar := by
    rintro v (rfl | ⟨b, rfl⟩ | ⟨s, rfl⟩ | ⟨n, hfits, rfl⟩) hintegers
    · trivial
    · trivial
    · trivial
    · cases n with
      | integer i => exact hfits
      | double x => cases hintegers
  array := by
    intro items hitems
    rw [Formed, IntegersOnly, integersOnlyItems_iff, Canonical, canonicalItems_iff]
    intro hintegers item hitem
    exact hitems item hitem (hintegers item hitem)
  object := by
    intro document hmembers _
    rw [Formed, IntegersOnly, integersOnlyMembers_iff, Canonical, canonicalMembers_iff]
    intro hintegers
    apply And.intro hmembers.ascending
    intro member hmember
    exact hmembers.value member hmember (hintegers member hmember)

end PathStore.Json
