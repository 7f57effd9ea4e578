import PathStore.Proofs.Query.Breaking

/-!
# A cursor keeps its place

Calls on a cursor may come in any order, and they may go on after one that has failed.  Every call
moves only over characters that it has seen ahead, and therefore so do all sequences of calls: the
position grows, it stays within the text, and what stands behind the cursor and what stands ahead of
it are the text.  What a call for an operand comes to is told by the text and the position alone,
with one rule for every way in which it can end.
-/

namespace PathStore

namespace Cursor

inductive Move where
  | operand
  | skipBlanks
  | eat (expected : Char)

/-- Where a call leaves the cursor, whether it succeeds or fails. -/
def perform (cursor : Cursor) : Move → Cursor
  | .operand => cursor.operand.2
  | .skipBlanks => cursor.skipBlanks
  | .eat expected => (cursor.eat? expected).getD cursor

def run (cursor : Cursor) (moves : List Move) : Cursor :=
  moves.foldl perform cursor

/-- The characters behind the cursor, as many as its position says, and the ones ahead are the
text. -/
structure StandsIn (cursor : Cursor) (text : String) : Prop where
  position_le : cursor.position ≤ text.length
  take_append_rest : text.toList.take cursor.position ++ cursor.rest = text.toList

end Cursor

/-- The longest word at the beginning of the characters ahead. -/
structure IsLongestWord (word ahead : List Char) : Prop where
  ne_nil : word ≠ []
  chars : ∀ c ∈ word, isWordChar c
  begins : word <+: ahead
  longest : ∀ run, run <+: ahead → (∀ c ∈ run, isWordChar c) → run.length ≤ word.length

/-- What a call for an operand returns at a position of the text, and the position it leads to. -/
inductive OperandAt (text : String) (position : Nat) : Except OperandError Operand → Nat → Prop
  | word {word : List Char} (h : IsLongestWord word (text.toList.drop position)) :
      OperandAt text position (.ok (.word word)) (position + word.length)
  | quoted {quoted : List Char} (hquote : '"' ∉ quoted)
      (hahead : '"' :: (quoted ++ ['"']) <+: text.toList.drop position) :
      OperandAt text position (.ok (.quoted quoted)) (position + (quoted.length + 2))
  | endOfInput (hend : position = text.length) :
      OperandAt text position (.error (.endOfInput position)) position
  | unexpected {c : Char} (hahead : text.toList[position]? = some c) (hquote : c ≠ '"')
      (hword : isWordChar c = false) :
      OperandAt text position (.error (.unexpected c position)) position
  | unterminated {opened : List Char} (hquote : '"' ∉ opened)
      (hahead : text.toList.drop position = '"' :: opened) :
      OperandAt text position (.error (.unterminated position)) text.length

namespace Cursor

variable {cursor between after : Cursor} {text : String}

@[simp]
theorem position_advance (cursor : Cursor) (count : Nat) :
    (cursor.advance count).position = cursor.position + count :=
  rfl

@[simp]
theorem rest_advance (cursor : Cursor) (count : Nat) :
    (cursor.advance count).rest = cursor.rest.drop count :=
  rfl

theorem advance_advance (cursor : Cursor) (count more : Nat) :
    (cursor.advance count).advance more = cursor.advance (count + more) := by
  simp [advance, Nat.add_assoc]

/-- The other cursor stands further on, behind some of the characters ahead. -/
def Reaches (cursor after : Cursor) : Prop :=
  ∃ count ≤ cursor.rest.length, after = cursor.advance count

theorem reaches_refl (cursor : Cursor) : cursor.Reaches cursor :=
  ⟨0, Nat.zero_le _, rfl⟩

theorem Reaches.trans (h : cursor.Reaches between) (h' : between.Reaches after) :
    cursor.Reaches after := by
  obtain ⟨count, hcount, rfl⟩ := h
  obtain ⟨more, hmore, rfl⟩ := h'
  refine ⟨count + more, ?_, advance_advance cursor count more⟩
  rw [rest_advance, List.length_drop] at hmore
  omega

theorem Reaches.position_le (h : cursor.Reaches after) : cursor.position ≤ after.position := by
  obtain ⟨count, -, rfl⟩ := h
  exact Nat.le_add_right _ _

theorem standsIn_start (text : String) : (start text).StandsIn text :=
  ⟨Nat.zero_le _, List.nil_append _⟩

theorem StandsIn.rest_eq (h : cursor.StandsIn text) :
    cursor.rest = text.toList.drop cursor.position := by
  have hsplit := h.take_append_rest.trans (List.take_append_drop cursor.position _).symm
  exact List.append_cancel_left hsplit

theorem StandsIn.length_rest (h : cursor.StandsIn text) :
    cursor.rest.length = text.length - cursor.position := by
  rw [h.rest_eq, List.length_drop, String.length_toList]

/-- Moving over characters ahead keeps the place in the text. -/
theorem Reaches.standsIn (hreaches : cursor.Reaches after) (h : cursor.StandsIn text) :
    after.StandsIn text := by
  obtain ⟨count, hcount, rfl⟩ := hreaches
  constructor
  · have hposition := h.position_le
    rw [h.length_rest] at hcount
    rw [position_advance]
    omega
  · rw [position_advance, rest_advance, h.rest_eq, List.drop_drop, List.take_append_drop]

theorem reaches_skipBlanks (cursor : Cursor) : cursor.Reaches cursor.skipBlanks :=
  ⟨_, (List.takeWhile_prefix isBlank).length_le, rfl⟩

theorem reaches_eat (cursor : Cursor) (expected : Char) :
    cursor.Reaches ((cursor.eat? expected).getD cursor) := by
  rw [eat?]
  split
  · rename_i c rest hcursor
    split
    · refine ⟨1, ?_, ?_⟩
      · rw [hcursor]
        exact Nat.succ_pos _
      · rw [advance, hcursor]
        rfl
    · exact cursor.reaches_refl
  · exact cursor.reaches_refl

/-- An operand is read over the characters that it is derived from; without one the cursor stays or
goes to the end. -/
theorem reaches_operand (cursor : Cursor) : cursor.Reaches cursor.operand.2 := by
  rcases derives_or_breaksOperand cursor.rest with
    ⟨operand, written, rest, hrest, hoperand, hends⟩ | ⟨error, hbreaks⟩
  · refine ⟨written.length, ?_, ?_⟩
    · rw [hrest, List.length_append]
      exact Nat.le_add_right _ _
    · rw [operand_of_derives hoperand hrest hends, advance, hrest, List.drop_left]
  · rw [operand_of_breaks hbreaks rfl]
    refine ⟨_, ?_, rfl⟩
    split
    · exact Nat.le_refl _
    · exact Nat.zero_le _

/-- Every call moves over characters ahead, also one that fails. -/
theorem reaches_perform (cursor : Cursor) (move : Move) : cursor.Reaches (cursor.perform move) := by
  cases move with
  | operand => exact cursor.reaches_operand
  | skipBlanks => exact cursor.reaches_skipBlanks
  | eat expected => exact cursor.reaches_eat expected

/-- All sequences of calls move over characters ahead. -/
theorem reaches_run (cursor : Cursor) (moves : List Move) : cursor.Reaches (cursor.run moves) := by
  induction moves generalizing cursor with
  | nil => exact cursor.reaches_refl
  | cons move moves ih => exact (cursor.reaches_perform move).trans (ih (cursor.perform move))

end Cursor

/-- Where a word cannot go on, it is the longest one. -/
theorem isLongestWord_append {word rest : List Char} (hne : word ≠ [])
    (hchars : ∀ c ∈ word, isWordChar c) (hends : EndsWord rest) :
    IsLongestWord word (word ++ rest) := by
  refine ⟨hne, hchars, List.prefix_append word rest, ?_⟩
  intro run hrun hall
  obtain ⟨more, hmore⟩ := hrun
  have htaken : (run ++ more).takeWhile isWordChar = word := by
    rw [hmore]
    exact takeWhile_append_of_head? hchars hends
  rw [List.takeWhile_append_of_pos hall] at htaken
  rw [← htaken]
  exact (List.prefix_append _ _).length_le

theorem IsLongestWord.endsWord {word rest : List Char} (h : IsLongestWord word (word ++ rest)) :
    EndsWord rest := by
  intro c hc
  by_contra hword
  rw [Bool.not_eq_false] at hword
  obtain ⟨more, rfl⟩ := List.head?_eq_some_iff.mp hc
  have hlonger : (word ++ [c]).length ≤ word.length := by
    apply h.longest
    · exact ⟨more, by simp⟩
    · exact List.forall_mem_append.mpr ⟨h.chars, List.forall_mem_singleton.mpr hword⟩
  rw [List.length_append, List.length_singleton] at hlonger
  omega

/-- One of the rules applies at every position. -/
theorem exists_operandAt {text : String} {position : Nat} (hposition : position ≤ text.length) :
    ∃ result stop, OperandAt text position result stop := by
  rcases derives_or_breaksOperand (text.toList.drop position) with
    ⟨operand, written, rest, hahead, hoperand, hends⟩ | ⟨error, hbreaks⟩
  · cases hoperand with
    | word hne hchars =>
      exact ⟨_, _, .word (hahead ▸ isLongestWord_append hne hchars hends)⟩
    | quoted hquote => exact ⟨_, _, .quoted hquote ⟨rest, hahead.symm⟩⟩
  · generalize hahead : text.toList.drop position = ahead at hbreaks
    cases hbreaks with
    | endOfInput =>
      have hle := List.drop_eq_nil_iff.mp hahead
      rw [String.length_toList] at hle
      exact ⟨_, _, .endOfInput (Nat.le_antisymm hposition hle)⟩
    | @unexpected c hquote hword rest =>
      have hfirst : text.toList[position]? = some c := by
        rw [← List.head?_drop, hahead]
        rfl
      exact ⟨_, _, .unexpected hfirst hquote hword⟩
    | unterminated hquote => exact ⟨_, _, .unterminated hquote hahead⟩

namespace Cursor

variable {cursor : Cursor} {text : String} {result : Except OperandError Operand} {stop : Nat}

/-- A call for an operand follows the rules. -/
theorem operand_of_operandAt (h : cursor.StandsIn text)
    (hat : OperandAt text cursor.position result stop) :
    cursor.operand.1 = result ∧ cursor.operand.2.position = stop := by
  have hrest := h.rest_eq
  cases hat with
  | @word word hlongest =>
    obtain ⟨rest, hahead⟩ := hlongest.begins
    rw [← hahead] at hrest hlongest
    have hderives : Operand.Derives (.word word) word := .word hlongest.ne_nil hlongest.chars
    rw [operand_of_derives hderives hrest hlongest.endsWord]
    exact ⟨rfl, rfl⟩
  | @quoted quoted hquote hahead =>
    obtain ⟨rest, hahead⟩ := hahead
    rw [← hahead] at hrest
    have hderives : Operand.Derives (.quoted quoted) ('"' :: (quoted ++ ['"'])) := .quoted hquote
    rw [operand_of_derives hderives hrest trivial]
    exact ⟨rfl, by simp⟩
  | endOfInput hend =>
    have hnone : cursor.rest = [] := by
      rw [hrest, hend, ← String.length_toList, List.drop_length]
    rw [operand_of_breaks .endOfInput hnone]
    simp [OperandError.shift, OperandError.isUnterminated]
  | @unexpected c hahead hquote hword =>
    rw [← List.head?_drop] at hahead
    obtain ⟨more, hmore⟩ := List.head?_eq_some_iff.mp hahead
    rw [operand_of_breaks (.unexpected hquote hword more) (hrest.trans hmore)]
    simp [OperandError.shift, OperandError.isUnterminated]
  | @unterminated opened hquote hahead =>
    have hlength := h.length_rest
    have hposition := h.position_le
    rw [hrest, hahead] at hlength
    rw [operand_of_breaks (.unterminated hquote) (hrest.trans hahead)]
    simp only [OperandError.shift, OperandError.isUnterminated, if_pos, position_advance,
      Nat.zero_add, true_and]
    omega

/-- The rules say what a call for an operand returns and where it leads, and nothing else. -/
theorem operand_eq_iff (h : cursor.StandsIn text) :
    cursor.operand.1 = result ∧ cursor.operand.2.position = stop ↔
      OperandAt text cursor.position result stop := by
  apply Iff.intro _ (operand_of_operandAt h)
  intro hread
  -- Some rule applies, and the call does what it says, so it is the rule for what has been read.
  obtain ⟨found, reached, hat⟩ := exists_operandAt h.position_le
  obtain ⟨hfound, hreached⟩ := operand_of_operandAt h hat
  rw [← hread.1, ← hread.2, hfound, hreached]
  exact hat

/-- Wherever calls have left a cursor, it stands in the text, no further call takes it back, and a
call for an operand returns exactly what the rules say and goes exactly where they say. -/
theorem run_start_keepsPlace (text : String) (moves : List Move) :
    let cursor := (start text).run moves
    cursor.StandsIn text ∧ (∀ more, cursor.position ≤ (cursor.run more).position) ∧
      ∀ result stop, cursor.operand.1 = result ∧ cursor.operand.2.position = stop ↔
        OperandAt text cursor.position result stop := by
  intro cursor
  have hstands : cursor.StandsIn text :=
    ((start text).reaches_run moves).standsIn (standsIn_start text)
  refine ⟨hstands, ?_, ?_⟩
  · intro more
    exact (cursor.reaches_run more).position_le
  · intro result stop
    exact operand_eq_iff hstands

end Cursor

end PathStore
