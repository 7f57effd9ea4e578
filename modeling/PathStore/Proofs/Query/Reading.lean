import Mathlib.Data.List.TakeWhile
import PathStore.Proofs.Query.Grammar

/-!
# Reading a query follows its grammar

A cursor that reads an operand takes the longest word, and the grammar does not ask for that; the
two agree because whatever may follow an operand in a derivation cannot go on a word.  Each move of
a cursor has two laws: what it reads is derived from the characters that it passes, and where
something derived lies ahead, followed by what may follow it, the move succeeds and goes just behind
it.
-/

namespace PathStore

def EndsWord (rest : List Char) : Prop :=
  ∀ c ∈ rest.head?, isWordChar c = false

theorem EndsTerm.endsWord {rest : List Char} (h : EndsTerm rest) : EndsWord rest :=
  fun c hc ↦ not_isWordChar_of_isBlank (h c hc)

/-- The operand does not go on here: no word does, and a quoted text has ended anyway. -/
def Operand.EndsAt : Operand → List Char → Prop
  | .word _, rest => EndsWord rest
  | .quoted _, _ => True

theorem EndsWord.endsAt {rest : List Char} (h : EndsWord rest) (operand : Operand) :
    operand.EndsAt rest := by
  cases operand with
  | word text => exact h
  | quoted text => trivial

theorem takeWhile_append_of_head? {p : Char → Bool} {text rest : List Char}
    (htext : ∀ c ∈ text, p c) (hrest : ∀ c ∈ rest.head?, p c = false) :
    (text ++ rest).takeWhile p = text := by
  have hstop : rest.takeWhile p = [] := by
    cases rest with
    | nil => rfl
    | cons c more => rw [List.takeWhile_cons_of_neg (by simp [hrest c rfl])]
  rw [List.takeWhile_append_of_pos htext, hstop, List.append_nil]

theorem takeWhile_of_not_mem {text : List Char} (h : '"' ∉ text) :
    text.takeWhile (· ≠ '"') = text := by
  rw [List.takeWhile_eq_self_iff]
  intro c hc
  apply decide_eq_true
  rintro rfl
  exact h hc

theorem takeWhile_quote {text : List Char} (h : '"' ∉ text) (rest : List Char) :
    (text ++ '"' :: rest).takeWhile (· ≠ '"') = text := by
  apply takeWhile_append_of_head?
  · rw [← List.takeWhile_eq_self_iff]
    exact takeWhile_of_not_mem h
  · intro c hc
    obtain rfl := Option.some.inj hc
    rfl

/-- An operand denotes one path, the one that is read from it. -/
theorem Operand.denotes_iff {operand : Operand} {path : Path} :
    operand.Denotes path ↔ path = operand.path := by
  constructor
  · intro h
    cases h with
    | word hne hdots =>
      rw [Operand.path, splitAtEach_toList_intercalate hne hdots, List.map_map]
      simp
    | quoted text => rfl
  · intro h
    subst h
    cases operand with
    | word text =>
      have hjoined : (".".intercalate (path (.word text))).toList = text := by
        have hparts : (path (.word text)).map String.toList = splitAtEach '.' text := by
          simp [path, Function.comp_def]
        have hdot : ".".toList = ['.'] := rfl
        rw [String.toList_intercalate, hparts, hdot, intercalate_splitAtEach]
      nth_rewrite 1 [← hjoined]
      refine .word ?_ ?_
      · exact mt List.map_eq_nil_iff.mp (splitAtEach_ne_nil '.' text)
      · intro segment hsegment
        obtain ⟨part, hpart, rfl⟩ := List.mem_map.mp hsegment
        rw [String.toList_ofList]
        exact not_mem_of_mem_splitAtEach hpart
    | quoted text => exact .quoted text

/-- The sign stands as it is here: where there is none, none follows. -/
def Operator.EndsAt (operator : Operator) (rest : List Char) : Prop :=
  operator = .equal → rest.head? ≠ some '>' ∧ rest.head? ≠ some '<'

def Term.comparison (term : Term) : Comparison :=
  ⟨term.key.path, term.operator, term.value.text⟩

theorem Term.denotes_iff {term : Term} {comparison : Comparison} :
    term.Denotes comparison ↔ comparison = term.comparison := by
  constructor
  · intro h
    rw [Term.comparison, ← Operand.denotes_iff.mp h.key, h.operator, h.value]
  · rintro rfl
    exact ⟨Operand.denotes_iff.mpr rfl, rfl, rfl⟩

/-- A query is derived just when it consists of the comparisons of derived terms. -/
theorem Query.derives_iff {query : Query} {text : List Char} :
    query.Derives text ↔ ∃ terms, DerivesQuery terms text ∧ query = terms.map Term.comparison := by
  have hdenotes : Term.Denotes = fun term comparison ↦ term.comparison = comparison := by
    ext term comparison
    rw [Term.denotes_iff, eq_comm]
  apply exists_congr
  intro terms
  rw [hdenotes, ← List.forall₂_map_left_iff, List.forall₂_eq_eq_eq, eq_comm]

namespace Cursor

variable {cursor after : Cursor} {rest : List Char}

theorem rest_advance_takeWhile (cursor : Cursor) (p : Char → Bool) :
    (cursor.advance (cursor.rest.takeWhile p).length).rest = cursor.rest.dropWhile p := by
  have hsplit := List.takeWhile_append_dropWhile (p := p) (l := cursor.rest)
  calc
    cursor.rest.drop (cursor.rest.takeWhile p).length =
        (cursor.rest.takeWhile p ++ cursor.rest.dropWhile p).drop
          (cursor.rest.takeWhile p).length := by rw [hsplit]
    _ = cursor.rest.dropWhile p := List.drop_left

/-- An operand that has been read is derived from the characters passed. -/
theorem derives_of_operand {found : Operand} (h : cursor.operand = (.ok found, after)) :
    ∃ text, found.Derives text ∧ cursor.rest = text ++ after.rest := by
  rw [operand] at h
  split at h
  · cases h
  rename_i c rest hcursor
  split at h
  · rename_i hquote
    subst hquote
    by_cases hclosed : '"' ∈ rest
    · obtain ⟨text, more, rfl, hnot⟩ := List.eq_append_cons_of_mem hclosed
      have hlength : text.length ≠ (text ++ '"' :: more).length := by simp
      simp only [takeWhile_quote hnot, if_neg hlength] at h
      obtain ⟨hfound, rfl⟩ := Prod.mk.inj h
      obtain rfl := Except.ok.inj hfound
      refine ⟨_, .quoted hnot, ?_⟩
      rw [advance, hcursor]
      simp
    · simp only [takeWhile_of_not_mem hclosed, if_pos] at h
      cases h
  · split at h
    · rename_i hword
      obtain ⟨hfound, rfl⟩ := Prod.mk.inj h
      obtain rfl := Except.ok.inj hfound
      refine ⟨_, .word ?_ fun d hd ↦ List.mem_takeWhile_imp hd, ?_⟩
      · rw [List.takeWhile_cons_of_pos hword]
        exact List.cons_ne_nil _ _
      · rw [← hcursor, rest_advance_takeWhile, List.takeWhile_append_dropWhile]
    · cases h

/-- A derived operand that cannot go on is read as it is. -/
theorem operand_of_derives {expected : Operand} {text : List Char} (h : expected.Derives text)
    (hcursor : cursor.rest = text ++ rest) (hrest : expected.EndsAt rest) :
    cursor.operand = (.ok expected, ⟨cursor.position + text.length, rest⟩) := by
  cases h with
  | word hne hchars =>
    obtain ⟨c, more, rfl⟩ := List.exists_cons_of_ne_nil hne
    have hword := hchars c List.mem_cons_self
    have hquote : c ≠ '"' := by
      rintro rfl
      exact absurd hword (by decide +kernel)
    rw [List.cons_append] at hcursor
    have htext : (c :: (more ++ rest)).takeWhile isWordChar = c :: more :=
      takeWhile_append_of_head? hchars hrest
    simp only [operand, hcursor, if_neg hquote, if_pos hword, htext, advance]
    rw [← List.cons_append, List.drop_left]
  | quoted hquote =>
    rename_i text
    rw [List.cons_append, List.append_assoc, List.singleton_append] at hcursor
    have hlength : text.length ≠ (text ++ '"' :: rest).length := by simp
    simp only [operand, hcursor, takeWhile_quote hquote, if_pos, if_neg hlength, advance]
    simp

theorem eat?_eq_some {expected : Char} (h : cursor.eat? expected = some after) :
    cursor.rest = expected :: after.rest := by
  rw [eat?] at h
  split at h
  · rename_i hcursor
    split at h
    · rename_i heq
      obtain rfl := Option.some.inj h
      rw [hcursor, heq]
    · cases h
  · cases h

theorem eat?_of_head {expected : Char} (h : cursor.rest = expected :: rest) :
    cursor.eat? expected = some ⟨cursor.position + 1, rest⟩ := by
  rw [eat?, h]
  exact if_pos rfl

theorem eat?_of_head?_ne {expected : Char} (h : cursor.rest.head? ≠ some expected) :
    cursor.eat? expected = none := by
  rw [eat?]
  split
  · rename_i c rest hcursor
    rw [hcursor] at h
    exact if_neg fun heq ↦ h (congrArg some heq)
  · rfl

/-- The sign that has been read is what was passed. -/
theorem rest_operator (cursor : Cursor) :
    cursor.rest = cursor.operator.1.sign ++ cursor.operator.2.rest := by
  unfold operator
  cases hgreater : cursor.eat? '>' with
  | some after => exact eat?_eq_some hgreater
  | none =>
    dsimp only
    cases hless : cursor.eat? '<' with
    | some after => exact eat?_eq_some hless
    | none => rfl

theorem operator_of_sign {expected : Operator} (hcursor : cursor.rest = expected.sign ++ rest)
    (hrest : expected.EndsAt rest) :
    cursor.operator = (expected, ⟨cursor.position + expected.sign.length, rest⟩) := by
  unfold operator
  cases expected with
  | equal =>
    have hrest' : cursor.rest = rest := hcursor
    obtain ⟨hgreater, hless⟩ := hrest rfl
    rw [← hrest'] at hgreater hless ⊢
    rw [eat?_of_head?_ne hgreater, eat?_of_head?_ne hless]
    rfl
  | greater =>
    rw [eat?_of_head hcursor]
    rfl
  | less =>
    have hnot : cursor.eat? '>' = none := by
      apply eat?_of_head?_ne
      rw [hcursor]
      intro heq
      exact absurd (Option.some.inj heq) (by decide)
    rw [hnot, eat?_of_head hcursor]
    rfl

/-- A comparison that has been read is derived from the characters passed. -/
theorem derives_of_comparison {found : Comparison} (h : cursor.comparison = .ok (found, after)) :
    ∃ (term : Term) (text : List Char), term.Derives text ∧ term.Denotes found ∧
      cursor.rest = text ++ after.rest := by
  rw [comparison] at h
  split at h
  · cases h
  rename_i key behindKey hkey
  split at h
  · cases h
  rename_i behindColon hcolon
  dsimp only at h
  split at h
  · cases h
  rename_i value behindValue hvalue
  obtain ⟨rfl, rfl⟩ := Prod.mk.inj (Except.ok.inj h)
  obtain ⟨keyText, hkeyText, hkeyRest⟩ := derives_of_operand hkey
  obtain ⟨valueText, hvalueText, hvalueRest⟩ := derives_of_operand hvalue
  refine ⟨⟨key, behindColon.operator.1, value⟩, _, .mk hkeyText hvalueText, ⟨?_, rfl, rfl⟩, ?_⟩
  · exact Operand.denotes_iff.mpr rfl
  · rw [hkeyRest, eat?_eq_some hcolon, rest_operator behindColon, hvalueRest]
    simp

/-- Behind the opening of a comparison its value is read. -/
theorem comparison_of_opening {key : Operand} {operator : Operator} {text : List Char}
    (hkey : key.Derives text) (hcursor : cursor.rest = text ++ ':' :: (operator.sign ++ rest))
    (hsign : operator.EndsAt rest) :
    cursor.comparison =
      match Cursor.operand ⟨cursor.position + text.length + 1 + operator.sign.length, rest⟩ with
      | (.error error, _) => .error (.value error)
      | (.ok value, after) => .ok (Term.comparison ⟨key, operator, value⟩, after) := by
  have hcolon : EndsWord (':' :: (operator.sign ++ rest)) := by
    intro d hd
    obtain rfl := Option.some.inj hd
    decide +kernel
  let behindKey : Cursor := ⟨cursor.position + text.length, ':' :: (operator.sign ++ rest)⟩
  let behindColon : Cursor := ⟨behindKey.position + 1, operator.sign ++ rest⟩
  have hreadKey : cursor.operand = (.ok key, behindKey) :=
    operand_of_derives hkey hcursor (hcolon.endsAt key)
  have hreadColon : behindKey.eat? ':' = some behindColon := eat?_of_head rfl
  have hreadSign : behindColon.operator =
      (operator, ⟨behindColon.position + operator.sign.length, rest⟩) :=
    operator_of_sign rfl hsign
  simp only [comparison, hreadKey, hreadColon, hreadSign]
  rfl

/-- A derived comparison that cannot go on is read as it is. -/
theorem comparison_of_derives {term : Term} {text : List Char} (h : term.Derives text)
    (hcursor : cursor.rest = text ++ rest) (hrest : term.value.EndsAt rest) :
    cursor.comparison = .ok (term.comparison, ⟨cursor.position + text.length, rest⟩) := by
  cases h with
  | @mk key value hkey hvalue =>
    obtain ⟨c, more, hhead, -, hgreater, hless⟩ := hvalue.head
    rw [List.append_assoc, List.cons_append, List.append_assoc] at hcursor
    have hsign : term.operator.EndsAt (value ++ rest) := fun _ ↦ by simp [hhead, hgreater, hless]
    rw [comparison_of_opening hkey hcursor hsign, operand_of_derives hvalue rfl hrest]
    simp [Nat.add_assoc, Nat.add_comm 1]

/-! ## Queries -/

theorem isGap_takeWhile (text : List Char) : IsGap (text.takeWhile isBlank) :=
  fun _ hc ↦ List.mem_takeWhile_imp hc

theorem rest_skipBlanks (cursor : Cursor) :
    cursor.rest = cursor.rest.takeWhile isBlank ++ cursor.skipBlanks.rest := by
  rw [skipBlanks, rest_advance_takeWhile, List.takeWhile_append_dropWhile]

theorem skipBlanks_of_gap {gap : List Char} (hgap : IsGap gap) (hcursor : cursor.rest = gap ++ rest)
    (hrest : ∀ c ∈ rest.head?, isBlank c = false) :
    cursor.skipBlanks = ⟨cursor.position + gap.length, rest⟩ := by
  rw [skipBlanks, advance, hcursor, takeWhile_append_of_head? hgap hrest, List.drop_left]

theorem endsTerm_iff : (cursor.atEnd || cursor.atBlank) = true ↔ EndsTerm cursor.rest := by
  rw [atEnd, atBlank, EndsTerm]
  cases cursor.rest <;> simp

/-- What has been read up to the end is derived. -/
theorem derives_of_comparisons {fuel : List Char} {query : Query}
    (hfuel : cursor.rest.length ≤ fuel.length) (h : comparisons fuel cursor = .ok query) :
    query.Derives cursor.rest := by
  induction fuel generalizing cursor query with
  | nil =>
    obtain rfl := Except.ok.inj h
    rw [List.length_eq_zero_iff.mp (Nat.le_zero.mp hfuel)]
    exact ⟨[], .of_gap nofun, .nil⟩
  | cons step fuel ih =>
    have hsplit := cursor.rest_skipBlanks
    have hgap := isGap_takeWhile cursor.rest
    rw [comparisons] at h
    split at h
    · rename_i hend
      obtain rfl := Except.ok.inj h
      rw [List.isEmpty_iff.mp hend, List.append_nil] at hsplit
      rw [hsplit]
      exact ⟨[], .of_gap hgap, .nil⟩
    · split at h
      · cases h
      rename_i found behind hread
      split at h
      · rename_i hends
        obtain ⟨term, text, hterm, hdenotes, htext⟩ := derives_of_comparison hread
        cases hmore : comparisons fuel behind with
        | error error =>
          rw [hmore] at h
          cases h
        | ok more =>
          rw [hmore] at h
          obtain rfl := Except.ok.inj h
          have hshorter : behind.rest.length ≤ fuel.length := by
            have hpos := hterm.length_pos
            rw [hsplit, htext, List.length_append, List.length_append, List.length_cons] at hfuel
            omega
          obtain ⟨terms, hterms, hall⟩ := ih hshorter hmore
          rw [hsplit, htext]
          exact ⟨term :: terms, hterms.cons hgap hterm (endsTerm_iff.mp hends), .cons hdenotes hall⟩
      · cases h

/-- A comparison that is set off from what follows is read, and reading goes on behind it. -/
theorem comparisons_cons {gap text tail fuel : List Char} {term : Term} (hgap : IsGap gap)
    (hterm : term.Derives text) (hends : EndsTerm tail)
    (hcursor : cursor.rest = gap ++ (text ++ tail)) (step : Char) :
    comparisons (step :: fuel) cursor =
      (comparisons fuel ⟨cursor.position + gap.length + text.length, tail⟩).map
        (term.comparison :: ·) := by
  obtain ⟨c, more, hhead, hblank⟩ := hterm.head
  let start : Cursor := ⟨cursor.position + gap.length, text ++ tail⟩
  let behind : Cursor := ⟨start.position + text.length, tail⟩
  have hstart : cursor.skipBlanks = start := by
    apply skipBlanks_of_gap hgap hcursor
    rw [hhead]
    intro d hd
    exact Option.some.inj hd ▸ hblank
  have hnotEnd : start.atEnd = false := by simp [start, atEnd, hhead]
  have hread : start.comparison = .ok (term.comparison, behind) :=
    comparison_of_derives hterm rfl (hends.endsWord.endsAt term.value)
  have hset : (behind.atEnd || behind.atBlank) = true := endsTerm_iff.mpr hends
  rw [comparisons, hstart, hnotEnd, hread]
  dsimp only
  rw [if_neg Bool.false_ne_true, if_pos hset]

/-- What is derived up to the end is read. -/
theorem comparisons_of_derives {fuel : List Char} {query : Query}
    (hfuel : cursor.rest.length ≤ fuel.length) (h : query.Derives cursor.rest) :
    comparisons fuel cursor = .ok query := by
  obtain ⟨terms, hterms, hall⟩ := h
  induction fuel generalizing cursor query terms with
  | nil =>
    have hempty := List.length_eq_zero_iff.mp (Nat.le_zero.mp hfuel)
    rw [hempty] at hterms
    obtain ⟨rfl, -⟩ | ⟨gap, term, more, text, tail, rfl, hsplit, -, hterm, -, -⟩ := hterms.step
    · cases hall
      rfl
    · have hpos := hterm.length_pos
      have hlength := congrArg List.length hsplit
      simp only [List.length_nil, List.length_append] at hlength
      omega
  | cons step fuel ih =>
    obtain ⟨rfl, hgap⟩ | ⟨gap, term, more, text, tail, rfl, hsplit, hgap, hterm, hends, hmore⟩ :=
      hterms.step
    · cases hall
      rw [comparisons, skipBlanks_of_gap hgap (List.append_nil _).symm nofun]
      rfl
    · cases hall with
      | @cons _ comparison _ comparisons hdenotes hall =>
        have hshorter : tail.length ≤ fuel.length := by
          have hpos := hterm.length_pos
          rw [hsplit, List.length_append, List.length_append, List.length_cons] at hfuel
          omega
        obtain rfl := Term.denotes_iff.mp hdenotes
        rw [comparisons_cons hgap hterm hends hsplit, ih hshorter more hmore hall]
        rfl

end Cursor

/-- The parser accepts what the grammar derives, and reads it as the same query. -/
theorem Query.parse_eq_ok_iff {text : String} {query : Query} :
    parse text = .ok query ↔ query.Derives text.toList := by
  have hfuel : (Cursor.start text).rest.length ≤ text.toList.length := Nat.le_refl _
  exact ⟨Cursor.derives_of_comparisons hfuel, Cursor.comparisons_of_derives hfuel⟩

/-- A text is read as a query exactly if the grammar derives the query from it, and it derives one
query at most. -/
theorem Query.parse_iff_derives (text : String) :
    (∀ query, parse text = .ok query ↔ query.Derives text.toList) ∧
      ∀ query other : Query, query.Derives text.toList → other.Derives text.toList →
        query = other := by
  apply And.intro fun _ ↦ parse_eq_ok_iff
  intro query other hquery hother
  exact Except.ok.inj ((parse_eq_ok_iff.mpr hquery).symm.trans (parse_eq_ok_iff.mpr hother))

end PathStore
