import PathStore.Error
import PathStore.Proofs.Query.Breaking

/-!
# Errors point at the first character that cannot go on

A beginning is viable if some readable text begins with it.  The position of an error is the length
of the longest viable beginning of the text: what stands before the position is viable, and with the
character at the position it is not, whatever follows.  A quoted text without its closing quote is
the exception, since it can still be closed: the whole text is viable, and the error points at the
quote that is open.
-/

namespace PathStore

/-- Some readable text begins with these characters. -/
def Query.IsViable (text : List Char) : Prop :=
  ∃ more query, parse (String.ofList (text ++ more)) = .ok query

/-- The error of a text points at the first character that cannot go on, or at an open quote, and
its message tells the position and quotes what stands there. -/
structure QueryError.PointsInto (error : QueryError) (text : String) : Prop where
  kind : (Error.query error).kind = .queryParse
  message : error.message = error.opening ++ toString error.position ++ error.ending
  quotes : ∀ rest ∈ error.ahead?, rest = text.toList.drop error.position
  position_le : error.position ≤ text.length
  /-- The quotes before the open one are all paired. -/
  unterminated : error.isUnterminated → ∃ opened,
    text.toList.drop error.position = '"' :: opened ∧ '"' ∉ opened ∧
      2 ∣ (text.toList.take error.position).count '"' ∧ Query.IsViable text.toList
  viable : error.isUnterminated = false → Query.IsViable (text.toList.take error.position)
  not_viable : error.isUnterminated = false → error.position < text.length →
    ¬ Query.IsViable (text.toList.take (error.position + 1))

theorem Query.isViable_iff {text : List Char} :
    IsViable text ↔ ∃ more terms, DerivesQuery terms (text ++ more) := by
  apply exists_congr
  intro more
  simp only [parse_eq_ok_iff, derives_iff, String.toList_ofList]
  constructor
  · rintro ⟨query, terms, hterms, -⟩
    exact ⟨terms, hterms⟩
  · rintro ⟨terms, hterms⟩
    exact ⟨_, terms, hterms, rfl⟩

/-- What breaks off however it goes on cannot become a query. -/
theorem Query.not_isViable_of_breaks {text : List Char}
    (h : ∀ more, ∃ error, BreaksQuery (text ++ more) error) : ¬ IsViable text := by
  rintro ⟨more, query, hparse⟩
  obtain ⟨error, hbreaks⟩ := h more
  have htext : (String.ofList (text ++ more)).toList = text ++ more := String.toList_ofList
  rw [← htext] at hbreaks
  cases (parse_of_breaks hbreaks).symm.trans hparse

theorem count_quote_of_forall {text : List Char} {p : Char → Bool} (h : ∀ c ∈ text, p c)
    (hquote : p '"' = false) : text.count '"' = 0 := by
  apply List.count_eq_zero_of_not_mem
  intro hmem
  cases (h _ hmem).symm.trans hquote

/-- An operand has no quote or two. -/
theorem Operand.Derives.two_dvd_count {operand : Operand} {text : List Char}
    (h : operand.Derives text) : 2 ∣ text.count '"' := by
  cases h with
  | word _ hchars => rw [count_quote_of_forall hchars (by decide +kernel)]; exact Nat.dvd_zero 2
  | quoted hquote =>
    have hnone := List.count_eq_zero_of_not_mem hquote
    simp [List.count_append, hnone]

theorem Operand.Derives.two_dvd_count_opening {operand : Operand} {text : List Char}
    (h : operand.Derives text) (operator : Operator) :
    2 ∣ (text ++ ':' :: operator.sign).count '"' := by
  have hsign : operator.sign.count '"' = 0 := by cases operator <;> decide
  simpa [List.count_append, hsign] using h.two_dvd_count

/-- Quotes come in pairs in a comparison. -/
theorem Term.Derives.two_dvd_count {term : Term} {text : List Char} (h : term.Derives text) :
    2 ∣ text.count '"' := by
  cases h with
  | mk hkey hvalue =>
    have hcount := Nat.dvd_add (hkey.two_dvd_count_opening term.operator) hvalue.two_dvd_count
    rwa [← List.count_append, List.append_assoc, List.cons_append] at hcount

/-- Quotes come in pairs in comparisons that are set off, so an open quote is a new one. -/
theorem SetOff.two_dvd_count {terms : List Term} {before : List Char} (h : SetOff terms before) :
    2 ∣ before.count '"' := by
  induction h with
  | gap hgap => rw [count_quote_of_forall hgap rfl]; exact Nat.dvd_zero 2
  | cons hgap hterm _ _ ih =>
    rw [List.count_append, List.count_append, count_quote_of_forall hgap rfl, Nat.zero_add]
    exact Nat.dvd_add hterm.two_dvd_count ih

namespace BreaksOperand

variable {text : List Char} {error : OperandError}

theorem position_eq_zero (h : BreaksOperand text error) : error.position = 0 := by
  cases h <;> rfl

/-- Where the closing quote is missing, an open one comes first and no other follows. -/
theorem exists_opened (h : BreaksOperand text error) (hopen : error.isUnterminated) :
    ∃ opened, text = '"' :: opened ∧ '"' ∉ opened := by
  cases h with
  | endOfInput => cases hopen
  | unexpected => cases hopen
  | unterminated hquote => exact ⟨_, rfl, hquote⟩

/-- An operand may stand at the place of the break, and an open quote can be closed. -/
theorem exists_derives (h : BreaksOperand text error) :
    ∃ more operand,
      Operand.Derives operand ((if error.isUnterminated then text else []) ++ more) := by
  cases h with
  | endOfInput => exact ⟨_, _, .quoted List.not_mem_nil⟩
  | unexpected => exact ⟨_, _, .quoted List.not_mem_nil⟩
  | unterminated hquote => exact ⟨_, _, .quoted hquote⟩

/-- Another text with the same first character breaks off too. -/
theorem exists_breaks {c : Char} {rest : List Char} (h : BreaksOperand (c :: rest) error)
    (hopen : error.isUnterminated = false) (more : List Char) :
    ∃ other, BreaksOperand (c :: more) other := by
  cases h with
  | unexpected hquote hword => exact ⟨_, .unexpected hquote hword more⟩
  | unterminated => cases hopen

end BreaksOperand

theorem Operand.EndsAt.congr {operand : Operand} {c : Char} {rest : List Char}
    (h : operand.EndsAt (c :: rest)) (more : List Char) : operand.EndsAt (c :: more) := by
  cases operand with
  | word text => exact h
  | quoted text => trivial

/-- An error stands between `done` and `ahead`. -/
structure QueryError.Divides (error : QueryError) (done ahead : List Char) : Prop where
  length : done.length = error.position
  quotes : ∀ rest ∈ error.ahead?, rest = ahead
  unterminated : error.isUnterminated → ∃ opened,
    ahead = '"' :: opened ∧ '"' ∉ opened ∧ 2 ∣ done.count '"'

/-- Behind comparisons that are set off, an error divides the text further on. -/
theorem QueryError.Divides.append_left {error : QueryError} {done ahead before : List Char}
    (h : error.Divides done ahead) (hbefore : 2 ∣ before.count '"') :
    (error.shift before.length).Divides (before ++ done) ahead := by
  refine ⟨by simp [h.length, Nat.add_comm], by simpa using h.quotes, ?_⟩
  intro hopen
  rw [isUnterminated_shift] at hopen
  obtain ⟨opened, hahead, hquote, hcount⟩ := h.unterminated hopen
  refine ⟨opened, hahead, hquote, ?_⟩
  rw [List.count_append]
  exact Nat.dvd_add hbefore hcount

/-- What stands before the error can be completed, with the text ahead if a quote is open there, and
otherwise not with the first character ahead. -/
theorem BreaksTerm.exists_divides {text : List Char} {error : QueryError}
    (h : BreaksTerm text error) :
    ∃ done ahead, text = done ++ ahead ∧ error.Divides done ahead ∧
      (∃ more term, Term.Derives term
        (done ++ ((if error.isUnterminated then ahead else []) ++ more))) ∧
      (error.isUnterminated = false → ∀ c rest, ahead = c :: rest → ∀ more,
        ∃ other, BreaksTerm (done ++ c :: more) other) := by
  have hempty : Operand.Derives (.quoted []) ['"', '"'] := .quoted List.not_mem_nil
  have hnone (ahead rest : List Char) (hmem : rest ∈ none) : rest = ahead :=
    absurd hmem (Option.not_mem_none rest)
  have hclosed (p : Prop) (hopen : false = true) : p := absurd hopen Bool.false_ne_true
  cases h with
  | @key _ error h =>
    have hdivides : (QueryError.key error).Divides [] text := by
      refine ⟨h.position_eq_zero.symm, hnone text, ?_⟩
      intro hopen
      obtain ⟨opened, htext, hquote⟩ := h.exists_opened hopen
      exact ⟨opened, htext, hquote, Nat.dvd_zero 2⟩
    refine ⟨[], text, rfl, hdivides, ?_, ?_⟩
    · obtain ⟨more, operand, hoperand⟩ := h.exists_derives
      have hterm : Term.Derives ⟨operand, .equal, .quoted []⟩ _ := .mk hoperand hempty
      rw [List.append_assoc] at hterm
      exact ⟨_, _, hterm⟩
    · rintro hopen c rest rfl more
      obtain ⟨other, hother⟩ := h.exists_breaks hopen more
      exact ⟨_, .key hother⟩
  | @colon key text rest hkey hends hcolon =>
    refine ⟨text, rest, rfl, ⟨rfl, fun _ heq ↦ (Option.some.inj heq).symm, hclosed _⟩, ?_, ?_⟩
    · exact ⟨[':', '"', '"'], ⟨key, .equal, .quoted []⟩, .mk hkey hempty⟩
    · rintro - c rest rfl more
      exact ⟨_, .colon hkey (hends.congr more) hcolon⟩
  | @value key operator text rest error hkey hsign h =>
    refine ⟨text ++ ':' :: operator.sign, rest, by simp, ⟨?_, hnone rest, ?_⟩, ?_, ?_⟩
    · simp [QueryError.position, h.position_eq_zero, Nat.add_assoc, Nat.add_comm]
    · intro hopen
      rw [QueryError.isUnterminated, OperandError.isUnterminated_shift] at hopen
      obtain ⟨opened, htext, hquote⟩ := h.exists_opened hopen
      exact ⟨opened, htext, hquote, hkey.two_dvd_count_opening operator⟩
    · obtain ⟨more, operand, hoperand⟩ := h.exists_derives
      have hterm : Term.Derives ⟨key, operator, operand⟩ _ := .mk hkey hoperand
      exact ⟨more, _, by simpa [QueryError.isUnterminated] using hterm⟩
    · rintro hopen c rest rfl more
      rw [QueryError.isUnterminated, OperandError.isUnterminated_shift] at hopen
      obtain ⟨other, hother⟩ := h.exists_breaks hopen more
      have hsign' : operator.EndsAt (c :: more) := hsign
      exact ⟨_, by simpa using BreaksTerm.value hkey hsign' hother⟩
  | @blank term text rest hterm hends hblank =>
    refine ⟨text, rest, rfl, ⟨rfl, fun _ heq ↦ (Option.some.inj heq).symm, hclosed _⟩, ?_, ?_⟩
    · exact ⟨[], term, by simpa [QueryError.isUnterminated] using hterm⟩
    · rintro - c rest rfl more
      exact ⟨_, .blank hterm (hends.congr more) hblank⟩

/-- A text that begins like one that breaks off breaks off behind the same comparisons. -/
theorem SetOff.exists_breaks {terms : List Term} {before done ahead more rest : List Char}
    {c d : Char} {error : QueryError} (hbefore : SetOff terms before) (hblank : isBlank c = false)
    (hsplit : c :: rest = done ++ d :: ahead) (h : BreaksTerm (done ++ d :: more) error) :
    ∃ other, BreaksQuery (before ++ (done ++ d :: more)) other := by
  cases done with
  | nil =>
    obtain ⟨rfl, -⟩ := List.cons.inj hsplit
    exact ⟨_, .mk hbefore hblank h⟩
  | cons first done =>
    obtain ⟨rfl, -⟩ := List.cons.inj hsplit
    exact ⟨_, .mk hbefore hblank h⟩

/-- Every error points at the first character that cannot go on, or at an open quote. -/
theorem Query.parse_error_points {text : String} {error : QueryError}
    (h : parse text = .error error) : error.PointsInto text := by
  have hbreaks := parse_eq_error_iff.mp h
  generalize htext : text.toList = characters at hbreaks
  have hlength : text.length = characters.length := by rw [← htext, String.length_toList]
  cases hbreaks with
  | @mk terms before rest c error hbefore hblank hbreaks =>
    obtain ⟨done, ahead, hsplit, hdivides, ⟨more, term, hterm⟩, hother⟩ := hbreaks.exists_divides
    replace hdivides := hdivides.append_left hbefore.two_dvd_count
    have hviable : IsViable (before ++ done ++ if error.isUnterminated then ahead else []) := by
      refine isViable_iff.mpr ⟨more, terms ++ [term], ?_⟩
      simpa using hbefore.append_derives hterm.derivesQuery
    rw [hsplit, ← List.append_assoc] at htext hlength
    have htake : text.toList.take (error.shift before.length).position = before ++ done := by
      rw [htext, ← hdivides.length, List.take_left]
    have hdrop : text.toList.drop (error.shift before.length).position = ahead := by
      rw [htext, ← hdivides.length, List.drop_left]
    constructor
    case kind => rfl
    case message => exact QueryError.message_eq _
    case quotes => exact hdrop ▸ hdivides.quotes
    case position_le =>
      rw [hlength, ← hdivides.length]
      exact (List.prefix_append _ _).length_le
    case unterminated =>
      intro hopen
      obtain ⟨opened, hahead, hquote, hcount⟩ := hdivides.unterminated hopen
      rw [QueryError.isUnterminated_shift] at hopen
      rw [hopen, if_pos rfl] at hviable
      rw [htake, hdrop, htext]
      exact ⟨opened, hahead, hquote, hcount, hviable⟩
    case viable =>
      intro hopen
      rw [QueryError.isUnterminated_shift] at hopen
      rw [hopen, if_neg Bool.false_ne_true, List.append_nil] at hviable
      rwa [htake]
    case not_viable =>
      intro hopen hlt
      rw [QueryError.isUnterminated_shift] at hopen
      rw [hlength, ← hdivides.length] at hlt
      cases ahead with
      | nil => simp at hlt
      | cons d ahead =>
        have htake' : text.toList.take ((error.shift before.length).position + 1) =
            before ++ done ++ [d] := by
          rw [htext, List.append_cons]
          apply List.take_left'
          rw [List.length_append, hdivides.length, List.length_singleton]
        rw [htake']
        apply not_isViable_of_breaks
        intro more
        obtain ⟨other, hother⟩ := hother hopen d ahead rfl more
        simpa using hbefore.exists_breaks hblank hsplit hother

/-- Two comparisons without white space in between, and a quote that nobody closes. -/
theorem Query.parse_error_points_glued :
    parse "a:1 \"b\":<\"x\"c:2" = .error (.missingBlank 12 ['c', ':', '2']) ∧
      (QueryError.missingBlank 12 ['c', ':', '2']).PointsInto "a:1 \"b\":<\"x\"c:2" ∧
      parse "a:1 b:\"x y" = .error (.value (.unterminated 6)) ∧
      (QueryError.value (.unterminated 6)).PointsInto "a:1 b:\"x y" := by
  have hglued : parse "a:1 \"b\":<\"x\"c:2" = .error (.missingBlank 12 ['c', ':', '2']) := by rfl
  have hopen : parse "a:1 b:\"x y" = .error (.value (.unterminated 6)) := by rfl
  exact ⟨hglued, parse_error_points hglued, hopen, parse_error_points hopen⟩

end PathStore
