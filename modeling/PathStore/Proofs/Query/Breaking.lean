import PathStore.Proofs.Query.Errors
import PathStore.Proofs.Query.Reading

/-!
# Where a text stops being a query

An unreadable text begins with comparisons that have white space behind them, possibly with none,
and goes on with a comparison that breaks off.  There is a rule for every way in which one can break
off, and it tells the place relative to where the comparison begins.  A text is derived by the
grammar or breaks off, and reading reports a break where the rules have it, so the rules cover all
errors.
-/

namespace PathStore

/-- No operand begins the text. -/
inductive BreaksOperand : List Char → OperandError → Prop
  | endOfInput : BreaksOperand [] (.endOfInput 0)
  | unexpected {c : Char} (hquote : c ≠ '"') (hword : isWordChar c = false) (rest : List Char) :
      BreaksOperand (c :: rest) (.unexpected c 0)
  | unterminated {opened : List Char} (hquote : '"' ∉ opened) :
      BreaksOperand ('"' :: opened) (.unterminated 0)

/-- No comparison that is set off from what follows begins the text. -/
inductive BreaksTerm : List Char → QueryError → Prop
  | key {text : List Char} {error : OperandError} (h : BreaksOperand text error) :
      BreaksTerm text (.key error)
  | colon {key : Operand} {text rest : List Char} (hkey : key.Derives text)
      (hends : key.EndsAt rest) (hcolon : rest.head? ≠ some ':') :
      BreaksTerm (text ++ rest) (.missingColon text.length rest)
  | value {key : Operand} {operator : Operator} {text rest : List Char} {error : OperandError}
      (hkey : key.Derives text) (hsign : operator.EndsAt rest) (h : BreaksOperand rest error) :
      BreaksTerm (text ++ ':' :: (operator.sign ++ rest))
        (.value (error.shift (text.length + 1 + operator.sign.length)))
  | blank {term : Term} {text rest : List Char} (hterm : term.Derives text)
      (hends : term.value.EndsAt rest) (hblank : ¬ EndsTerm rest) :
      BreaksTerm (text ++ rest) (.missingBlank text.length rest)

/-- Comparisons with white space behind each of them: `blank* (comparison blank+)*`. -/
inductive SetOff : List Term → List Char → Prop
  | gap {gap : List Char} (hgap : IsGap gap) : SetOff [] gap
  | cons {term : Term} {terms : List Term} {gap text : List Char} {c : Char} {tail : List Char}
      (hgap : IsGap gap) (hterm : term.Derives text) (hblank : isBlank c)
      (h : SetOff terms (c :: tail)) : SetOff (term :: terms) (gap ++ (text ++ c :: tail))

/-- The text breaks off behind comparisons that are set off. -/
inductive BreaksQuery : List Char → QueryError → Prop
  | mk {terms : List Term} {before rest : List Char} {c : Char} {error : QueryError}
      (hbefore : SetOff terms before) (hblank : isBlank c = false)
      (h : BreaksTerm (c :: rest) error) :
      BreaksQuery (before ++ c :: rest) (error.shift before.length)

theorem DerivesQuery.gap_append {terms : List Term} {gap text : List Char} (hgap : IsGap gap)
    (h : DerivesQuery terms text) : DerivesQuery terms (gap ++ text) := by
  cases h with
  | none hbefore hafter =>
    rw [← List.append_assoc]
    exact .none (hgap.append hbefore) hafter
  | some hbefore hterms hafter =>
    rw [← List.append_assoc]
    exact .some (hgap.append hbefore) hterms hafter

theorem endsTerm_cons {c : Char} (h : isBlank c) (rest : List Char) : EndsTerm (c :: rest) :=
  fun _ hd ↦ Option.some.inj hd ▸ h

/-- A query may follow comparisons that are set off. -/
theorem SetOff.append_derives {terms more : List Term} {before text : List Char}
    (h : SetOff terms before) (htext : DerivesQuery more text) :
    DerivesQuery (terms ++ more) (before ++ text) := by
  induction h with
  | gap hgap => exact htext.gap_append hgap
  | cons hgap hterm hblank _ ih =>
    rw [List.append_assoc, List.append_assoc]
    exact DerivesQuery.cons ih hgap hterm (endsTerm_cons hblank _)

theorem SetOff.gap_append {terms : List Term} {gap before : List Char} (hgap : IsGap gap)
    (h : SetOff terms before) : SetOff terms (gap ++ before) := by
  cases h with
  | gap hbefore => exact .gap (hgap.append hbefore)
  | cons hbefore hterm hblank h =>
    rw [← List.append_assoc]
    exact .cons (hgap.append hbefore) hterm hblank h

theorem SetOff.append {terms more : List Term} {before text : List Char} (h : SetOff terms before)
    (htext : SetOff more text) : SetOff (terms ++ more) (before ++ text) := by
  induction h with
  | gap hgap => exact htext.gap_append hgap
  | cons hgap hterm hblank _ ih =>
    rw [List.append_assoc, List.append_assoc]
    exact .cons hgap hterm hblank ih

/-- Either an operand begins the text, or a rule tells why none does. -/
theorem derives_or_breaksOperand (text : List Char) :
    (∃ operand written rest, text = written ++ rest ∧ Operand.Derives operand written ∧
        operand.EndsAt rest) ∨
      ∃ error, BreaksOperand text error := by
  rcases text with _ | ⟨c, rest⟩
  · exact .inr ⟨_, .endOfInput⟩
  by_cases hquote : c = '"'
  · subst hquote
    by_cases hclosed : '"' ∈ rest
    · obtain ⟨quoted, more, rfl, hnot⟩ := List.eq_append_cons_of_mem hclosed
      exact .inl ⟨.quoted quoted, _, more, by simp, .quoted hnot, trivial⟩
    · exact .inr ⟨_, .unterminated hclosed⟩
  cases hword : isWordChar c with
  | false => exact .inr ⟨_, .unexpected hquote hword rest⟩
  | true =>
    have hne : (c :: rest).takeWhile isWordChar ≠ [] := by
      rw [List.takeWhile_cons_of_pos hword]
      exact List.cons_ne_nil _ _
    refine .inl ⟨.word _, _, (c :: rest).dropWhile isWordChar,
      List.takeWhile_append_dropWhile.symm, .word hne fun d hd ↦ List.mem_takeWhile_imp hd, ?_⟩
    intro d hd
    have hhead := List.head?_dropWhile_not isWordChar (c :: rest)
    rw [Option.mem_def.mp hd] at hhead
    simpa using hhead

/-- The longest sign is taken. -/
theorem exists_sign (text : List Char) :
    ∃ operator rest, text = Operator.sign operator ++ rest ∧ operator.EndsAt rest := by
  by_cases hgreater : text.head? = some '>'
  · obtain ⟨rest, rfl⟩ := List.head?_eq_some_iff.mp hgreater
    exact ⟨.greater, rest, rfl, nofun⟩
  by_cases hless : text.head? = some '<'
  · obtain ⟨rest, rfl⟩ := List.head?_eq_some_iff.mp hless
    exact ⟨.less, rest, rfl, nofun⟩
  · exact ⟨.equal, text, rfl, fun _ ↦ ⟨hgreater, hless⟩⟩

/-- Either a comparison that is set off begins the text, or a rule tells why none does. -/
theorem derives_or_breaksTerm (text : List Char) :
    (∃ term written rest, text = written ++ rest ∧ Term.Derives term written ∧ EndsTerm rest) ∨
      ∃ error, BreaksTerm text error := by
  rcases derives_or_breaksOperand text with
    ⟨key, keyText, rest, rfl, hkey, hends⟩ | ⟨error, hbreaks⟩
  case inr => exact .inr ⟨_, .key hbreaks⟩
  by_cases hcolon : rest.head? = some ':'
  case neg => exact .inr ⟨_, .colon hkey hends hcolon⟩
  obtain ⟨behindColon, rfl⟩ := List.head?_eq_some_iff.mp hcolon
  obtain ⟨operator, behindSign, rfl, hsign⟩ := exists_sign behindColon
  rcases derives_or_breaksOperand behindSign with
    ⟨value, valueText, tail, rfl, hvalue, hends⟩ | ⟨error, hbreaks⟩
  case inr => exact .inr ⟨_, .value hkey hsign hbreaks⟩
  let term : Term := ⟨key, operator, value⟩
  have hterm : term.Derives (keyText ++ ':' :: (operator.sign ++ valueText)) := .mk hkey hvalue
  have hsplit : keyText ++ ':' :: (operator.sign ++ (valueText ++ tail)) =
      keyText ++ ':' :: (operator.sign ++ valueText) ++ tail := by simp
  rw [hsplit]
  by_cases htail : EndsTerm tail
  · exact .inl ⟨term, _, tail, rfl, hterm, htail⟩
  · exact .inr ⟨_, .blank hterm hends htail⟩

/-- A comparison that is set off may stand in front of a text that breaks off. -/
theorem BreaksQuery.cons {term : Term} {gap text tail : List Char} {error : QueryError}
    (h : BreaksQuery tail error) (hgap : IsGap gap) (hterm : term.Derives text)
    (hends : EndsTerm tail) :
    BreaksQuery (gap ++ (text ++ tail)) (error.shift (gap.length + text.length)) := by
  cases h with
  | @mk terms before rest c error hbefore hblank h =>
    rcases before with _ | ⟨d, before⟩
    · cases hblank.symm.trans (hends c rfl)
    · have hset : SetOff (term :: terms) (gap ++ (text ++ d :: before)) :=
        .cons hgap hterm (hends d rfl) hbefore
      have hbreaks := BreaksQuery.mk hset hblank h
      simpa [Nat.add_comm, Nat.add_left_comm, Nat.add_assoc] using hbreaks

/-- All white space at the beginning is taken. -/
theorem exists_gap (text : List Char) :
    ∃ gap rest, text = gap ++ rest ∧ IsGap gap ∧ ∀ c ∈ rest.head?, isBlank c = false := by
  refine ⟨text.takeWhile isBlank, text.dropWhile isBlank, List.takeWhile_append_dropWhile.symm,
    Cursor.isGap_takeWhile text, fun c hc ↦ ?_⟩
  have hhead := List.head?_dropWhile_not isBlank text
  rw [Option.mem_def.mp hc] at hhead
  simpa using hhead

/-- Every text is derived or breaks off. -/
theorem derives_or_breaks (text : List Char) :
    (∃ terms, DerivesQuery terms text) ∨ ∃ error, BreaksQuery text error := by
  induction hlength : text.length using Nat.strong_induction_on generalizing text with
  | h length ih =>
  obtain ⟨gap, rest, rfl, hgap, hhead⟩ := exists_gap text
  rcases rest with _ | ⟨c, more⟩
  · exact .inl ⟨[], by simpa using .of_gap hgap⟩
  rcases derives_or_breaksTerm (c :: more) with
    ⟨term, written, tail, hwritten, hterm, hends⟩ | ⟨error, hbreaks⟩
  case inr => exact .inr ⟨_, .mk (.gap hgap) (hhead c rfl) hbreaks⟩
  rw [hwritten] at hlength ⊢
  have hshorter : tail.length < length := by
    have hpos := hterm.length_pos
    rw [← hlength, List.length_append, List.length_append]
    omega
  rcases ih _ hshorter tail rfl with ⟨terms, hterms⟩ | ⟨error, hbreaks⟩
  · exact .inl ⟨term :: terms, hterms.cons hgap hterm hends⟩
  · exact .inr ⟨_, hbreaks.cons hgap hterm hends⟩

namespace Cursor

variable {cursor : Cursor} {text : List Char}

/-- Without an operand the cursor stays where it is, or goes to the end behind an open quote. -/
theorem operand_of_breaks {error : OperandError} (h : BreaksOperand text error)
    (hcursor : cursor.rest = text) :
    cursor.operand = (.error (error.shift cursor.position),
      cursor.advance (if error.isUnterminated then text.length else 0)) := by
  cases h with
  | endOfInput =>
    simp only [operand, hcursor, OperandError.shift, Nat.zero_add]
    rfl
  | unexpected hquote hword rest =>
    simp only [operand, hcursor, if_neg hquote, hword, OperandError.shift, Nat.zero_add]
    rfl
  | @unterminated opened hquote =>
    simp only [operand, hcursor, takeWhile_of_not_mem hquote, if_pos, OperandError.shift,
      Nat.zero_add]
    rfl

/-- A comparison that breaks off is not read, or it has no white space behind it. -/
theorem comparison_of_breaks {error : QueryError} (h : BreaksTerm text error)
    (hcursor : cursor.rest = text) :
    cursor.comparison = .error (error.shift cursor.position) ∨
      ∃ found behind, cursor.comparison = .ok (found, behind) ∧ ¬ EndsTerm behind.rest ∧
        error.shift cursor.position = .missingBlank behind.position behind.rest := by
  cases h with
  | key h =>
    have hread := operand_of_breaks h hcursor
    left
    simp only [comparison, hread, QueryError.shift]
  | @colon key text rest hkey hends hcolon =>
    let behind : Cursor := ⟨cursor.position + text.length, rest⟩
    have hread : cursor.operand = (.ok key, behind) := operand_of_derives hkey hcursor hends
    have hnone : behind.eat? ':' = none := eat?_of_head?_ne hcolon
    left
    simp only [comparison, hread, hnone, QueryError.shift, Nat.add_comm text.length]
    rfl
  | @value key operator text rest error hkey hsign h =>
    let start : Cursor := ⟨cursor.position + text.length + 1 + operator.sign.length, rest⟩
    have hrest : start.rest = rest := rfl
    have hread := operand_of_breaks h hrest
    left
    rw [comparison_of_opening hkey hcursor hsign, hread]
    simp [QueryError.shift, start, Nat.add_assoc, Nat.add_comm]
  | @blank term text rest hterm hends hblank =>
    right
    refine ⟨_, _, comparison_of_derives hterm hcursor hends, hblank, ?_⟩
    rw [QueryError.shift, Nat.add_comm]

/-- Reading stops at the comparison that breaks off. -/
theorem comparisons_of_breaksTerm {fuel gap rest : List Char} {c : Char} {error : QueryError}
    (hgap : IsGap gap) (hblank : isBlank c = false) (h : BreaksTerm (c :: rest) error)
    (hcursor : cursor.rest = gap ++ c :: rest) (step : Char) :
    comparisons (step :: fuel) cursor = .error (error.shift (cursor.position + gap.length)) := by
  let start : Cursor := ⟨cursor.position + gap.length, c :: rest⟩
  have hstart : cursor.skipBlanks = start :=
    skipBlanks_of_gap hgap hcursor fun d hd ↦ Option.some.inj hd ▸ hblank
  have hnotEnd : start.atEnd = false := rfl
  rw [comparisons, hstart, hnotEnd]
  have hread : start.rest = c :: rest := rfl
  rcases comparison_of_breaks h hread with hread | ⟨found, behind, hread, hends, hplace⟩
  · rw [hread]
    rfl
  · have hset : (behind.atEnd || behind.atBlank) = false :=
      Bool.eq_false_iff.mpr (mt endsTerm_iff.mp hends)
    rw [hread]
    dsimp only
    rw [hset, ← hplace]
    rfl

/-- Comparisons that are set off are passed, and the break behind them is reported at its place. -/
theorem comparisons_of_setOff {terms : List Term} {before rest : List Char} {c : Char}
    {error : QueryError} (hbefore : SetOff terms before) (hblank : isBlank c = false)
    (h : BreaksTerm (c :: rest) error) {fuel : List Char}
    (hfuel : (before ++ c :: rest).length ≤ fuel.length)
    (hcursor : cursor.rest = before ++ c :: rest) :
    comparisons fuel cursor = .error (error.shift (cursor.position + before.length)) := by
  induction hbefore generalizing fuel cursor with
  | gap hgap =>
    rcases fuel with _ | ⟨step, fuel⟩
    · simp at hfuel
    · exact comparisons_of_breaksTerm hgap hblank h hcursor step
  | @cons term terms gap text d tail hgap hterm hd _ ih =>
    rcases fuel with _ | ⟨step, fuel⟩
    · simp at hfuel
    rw [List.append_assoc, List.append_assoc] at hcursor hfuel
    have hshorter : (d :: tail ++ c :: rest).length ≤ fuel.length := by
      have hpos := hterm.length_pos
      rw [List.length_append, List.length_append, List.length_cons] at hfuel
      omega
    rw [comparisons_cons hgap hterm (endsTerm_cons hd _) hcursor step, ih hshorter rfl]
    simp [Except.map, Nat.add_assoc]

end Cursor

/-- A text that breaks off is refused with the error of the break. -/
theorem Query.parse_of_breaks {text : String} {error : QueryError}
    (h : BreaksQuery text.toList error) : parse text = .error error := by
  generalize htext : text.toList = characters at h
  cases h with
  | @mk terms before rest c error hbefore hblank h =>
    have hfuel : (before ++ c :: rest).length ≤ text.toList.length := htext ▸ Nat.le_refl _
    have hread : (Cursor.start text).comparisons text.toList =
        .error (error.shift (0 + before.length)) :=
      Cursor.comparisons_of_setOff hbefore hblank h hfuel htext
    rwa [Nat.zero_add] at hread

/-- A text is unreadable exactly if it breaks off, and the error tells the break. -/
theorem Query.parse_eq_error_iff {text : String} {error : QueryError} :
    parse text = .error error ↔ BreaksQuery text.toList error := by
  apply Iff.intro _ parse_of_breaks
  intro h
  rcases derives_or_breaks text.toList with ⟨terms, hterms⟩ | ⟨other, hbreaks⟩
  · have hparse := parse_eq_ok_iff.mpr (Query.derives_iff.mpr ⟨terms, hterms, rfl⟩)
    cases hparse.symm.trans h
  · obtain rfl := Except.error.inj ((parse_of_breaks hbreaks).symm.trans h)
    exact hbreaks

end PathStore
