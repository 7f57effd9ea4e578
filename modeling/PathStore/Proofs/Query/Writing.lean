import PathStore.Proofs.Query.Reading

/-!
# Writing a query

Every comparison can be written in one form: a key of one segment in quotes, a longer key with dots
between its segments, the sign, and the value in quotes.  Nothing is escaped between quotes, so a
text with a quote cannot be written, and a key of several segments can only be a word.  Apart from
that the form is read back as it was, and the reader finds nothing that has no such form.  A key
without segments has none.
-/

namespace PathStore

/-- The key is one segment without a quote, or at least two segments of letters and digits, any of
which may be empty. -/
inductive Path.IsExpressible : Path → Prop
  | single {segment : String} (hquote : '"' ∉ segment.toList) : IsExpressible [segment]
  | several {path : Path} (hlength : 2 ≤ path.length)
      (hchars : ∀ segment ∈ path, ∀ c ∈ segment.toList, isAlphanumeric c) : IsExpressible path

structure Comparison.IsExpressible (comparison : Comparison) : Prop where
  key : comparison.key.IsExpressible
  value : '"' ∉ comparison.value.toList

def Query.IsExpressible (query : Query) : Prop :=
  ∀ comparison ∈ query, comparison.IsExpressible

def inQuotes (text : String) : String :=
  "\"" ++ text ++ "\""

def Path.written : Path → String
  | [segment] => inQuotes segment
  | path => ".".intercalate path

def Comparison.written (comparison : Comparison) : String :=
  comparison.key.written ++ ":" ++ String.ofList comparison.operator.sign ++
    inQuotes comparison.value

/-- The comparisons with a space between them. -/
def Query.written (query : Query) : String :=
  " ".intercalate (query.map Comparison.written)

theorem isWordChar_of_isAlphanumeric {c : Char} (h : isAlphanumeric c) : isWordChar c := by
  rw [isWordChar, h, Bool.true_or]

theorem toList_inQuotes (text : String) :
    (inQuotes text).toList = '"' :: (text.toList ++ ['"']) := by
  simp [inQuotes]

theorem Operand.derives_inQuotes {text : String} (h : '"' ∉ text.toList) :
    (Operand.quoted text.toList).Derives (inQuotes text).toList :=
  toList_inQuotes text ▸ .quoted h

/-- Letters and digits joined by dots are word characters. -/
theorem isWordChar_of_mem_intercalate {path : Path}
    (h : ∀ segment ∈ path, ∀ c ∈ segment.toList, isAlphanumeric c) :
    ∀ c ∈ (".".intercalate path).toList, isWordChar c := by
  intro c hc
  have hdot : ".".toList = ['.'] := rfl
  rw [String.toList_intercalate, hdot] at hc
  rcases mem_of_mem_intercalate hc with rfl | ⟨part, hpart, hmem⟩
  · rfl
  · obtain ⟨segment, hsegment, rfl⟩ := List.mem_map.mp hpart
    exact isWordChar_of_isAlphanumeric (h segment hsegment c hmem)

theorem dot_not_mem_of_isAlphanumeric {segment : String}
    (h : ∀ c ∈ segment.toList, isAlphanumeric c) : '.' ∉ segment.toList := by
  intro hdot
  have hletter := h '.' hdot
  revert hletter
  decide +kernel

/-- An expressible key is the path of an operand that its written form spells. -/
theorem Path.IsExpressible.exists_operand {path : Path} (h : path.IsExpressible) :
    ∃ operand : Operand, operand.Derives path.written.toList ∧ operand.path = path := by
  cases h with
  | @single segment hquote =>
    refine ⟨.quoted segment.toList, Operand.derives_inQuotes hquote, ?_⟩
    rw [Operand.path, String.ofList_toList]
  | several hlength hchars =>
    rcases path with _ | ⟨first, _ | ⟨second, rest⟩⟩
    · simp at hlength
    · simp at hlength
    · have hne : (".".intercalate (first :: second :: rest)).toList ≠ [] := by
        simp [String.intercalate_cons_cons]
      refine ⟨_, .word hne (isWordChar_of_mem_intercalate hchars), ?_⟩
      exact (Operand.denotes_iff.mp (.word (List.cons_ne_nil _ _) fun segment hsegment ↦
        dot_not_mem_of_isAlphanumeric (hchars segment hsegment))).symm

/-- An expressible comparison is said by the term that it is written as. -/
theorem Comparison.IsExpressible.exists_term {comparison : Comparison}
    (h : comparison.IsExpressible) :
    ∃ term : Term, term.Derives comparison.written.toList ∧ term.comparison = comparison := by
  obtain ⟨key, hkey, hpath⟩ := h.key.exists_operand
  let term : Term := ⟨key, comparison.operator, .quoted comparison.value.toList⟩
  have hterm : term.Derives _ := .mk hkey (Operand.derives_inQuotes h.value)
  refine ⟨term, by simpa [Comparison.written] using hterm, ?_⟩
  rw [Term.comparison, hpath, Operand.text, String.ofList_toList]

/-- The written form of an expressible query is derived. -/
theorem Query.IsExpressible.derives_written {query : Query} (h : query.IsExpressible) :
    query.Derives query.written.toList := by
  have hnone : IsGap [] := List.forall_mem_nil _
  rw [Query.derives_iff]
  cases query with
  | nil => exact ⟨[], .of_gap hnone, rfl⟩
  | cons first rest =>
    -- The grammar has rules for one comparison and for more, so no empty list can start this off.
    suffices ∃ terms, DerivesTerms terms (Query.written (first :: rest)).toList ∧
        first :: rest = terms.map Term.comparison by
      obtain ⟨terms, hterms, hquery⟩ := this
      exact ⟨terms, by simpa using DerivesQuery.some hnone hterms hnone, hquery⟩
    induction rest generalizing first with
    | nil =>
      obtain ⟨term, hterm, rfl⟩ := (h first List.mem_cons_self).exists_term
      exact ⟨[term], .one (by simpa [written] using hterm), rfl⟩
    | cons second rest ih =>
      obtain ⟨hfirst, hrest⟩ := List.forall_mem_cons.mp h
      obtain ⟨term, hterm, rfl⟩ := hfirst.exists_term
      obtain ⟨terms, hterms, hquery⟩ := ih second hrest
      have hgap : IsGap [' '] := List.forall_mem_singleton.mpr rfl
      have hmore := DerivesTerms.more hterm hgap (List.cons_ne_nil _ _) hterms
      refine ⟨term :: terms, ?_, congrArg (term.comparison :: ·) hquery⟩
      simpa [written, String.intercalate_cons_cons] using hmore

theorem Operand.Derives.quote_not_mem {operand : Operand} {text : List Char}
    (h : operand.Derives text) : '"' ∉ operand.text.toList := by
  cases h with
  | word _ hchars =>
    rw [Operand.text, String.toList_ofList]
    intro hquote
    have hword := hchars '"' hquote
    revert hword
    decide +kernel
  | quoted hquote => rwa [Operand.text, String.toList_ofList]

/-- Between its dots a word has letters and digits. -/
theorem isAlphanumeric_of_mem_splitAtEach {text part : List Char}
    (h : ∀ c ∈ text, isWordChar c) (hpart : part ∈ splitAtEach '.' text) :
    ∀ c ∈ part, isAlphanumeric c := by
  intro c hc
  have hword := h c (mem_of_mem_splitAtEach hpart hc)
  rw [isWordChar, Bool.or_eq_true, decide_eq_true_iff] at hword
  rcases hword with hletter | rfl
  · exact hletter
  · exact absurd hc (not_mem_of_mem_splitAtEach hpart)

/-- The path of a derived key is expressible. -/
theorem Operand.Derives.isExpressible_path {operand : Operand} {text : List Char}
    (h : operand.Derives text) : operand.path.IsExpressible := by
  cases h with
  | word hne hchars =>
    have hletters : ∀ segment ∈ (Operand.word text).path, ∀ c ∈ segment.toList,
        isAlphanumeric c := by
      intro segment hsegment
      obtain ⟨part, hpart, rfl⟩ := List.mem_map.mp hsegment
      rw [String.toList_ofList]
      exact isAlphanumeric_of_mem_splitAtEach hchars hpart
    rcases hpath : (Operand.word text).path with _ | ⟨first, _ | ⟨second, rest⟩⟩
    · exact absurd (List.map_eq_nil_iff.mp hpath) (splitAtEach_ne_nil '.' text)
    · rw [hpath] at hletters
      apply Path.IsExpressible.single
      intro hquote
      have hletter := hletters first List.mem_cons_self '"' hquote
      revert hletter
      decide +kernel
    · rw [hpath] at hletters
      exact .several (Nat.le_add_left 2 _) hletters
  | quoted hquote => exact .single (by rwa [String.toList_ofList])

theorem Term.Derives.isExpressible {term : Term} {text : List Char} (h : term.Derives text) :
    term.comparison.IsExpressible := by
  cases h with
  | mk hkey hvalue => exact ⟨hkey.isExpressible_path, hvalue.quote_not_mem⟩

/-- Whatever is derived is expressible. -/
theorem Query.Derives.isExpressible {query : Query} {text : List Char} (h : query.Derives text) :
    query.IsExpressible := by
  obtain ⟨terms, hterms, rfl⟩ := Query.derives_iff.mp h
  intro comparison hcomparison
  obtain ⟨term, hterm, rfl⟩ := List.mem_map.mp hcomparison
  obtain ⟨written, hwritten⟩ := hterms.derives_of_mem term hterm
  exact hwritten.isExpressible

/-- An expressible query is read back from its written form, and whatever is read from a text is
expressible. -/
theorem Query.parse_written (query : Query) :
    (query.IsExpressible → parse query.written = .ok query) ∧
      ∀ text, parse text = .ok query → query.IsExpressible := by
  constructor
  · intro h
    exact parse_eq_ok_iff.mpr h.derives_written
  · intro text h
    exact (parse_eq_ok_iff.mp h).isExpressible

/-- Two comparisons whose quoted texts hold everything that means something outside quotes.  The
second key begins and ends with an empty segment. -/
def punctuated : Query :=
  [⟨["a.b: >"], .greater, "\n<.:"⟩, ⟨["", "é", ""], .less, ""⟩]

theorem Query.parse_written_punctuated :
    punctuated.IsExpressible ∧ punctuated.written = "\"a.b: >\":>\"\n<.:\" .é.:<\"\"" ∧
      parse "\"a.b: >\":>\"\n<.:\" .é.:<\"\"" = .ok punctuated := by
  have hletters : ∀ c ∈ "é".toList, isAlphanumeric c := List.all_eq_true.mp (by decide +kernel)
  have hkey : Path.IsExpressible ["", "é", ""] :=
    .several (by decide) (List.forall_mem_cons.mpr ⟨nofun, List.forall_mem_cons.mpr
      ⟨hletters, List.forall_mem_singleton.mpr nofun⟩⟩)
  have hexpressible : punctuated.IsExpressible :=
    List.forall_mem_cons.mpr ⟨⟨.single (by decide), by decide⟩,
      List.forall_mem_singleton.mpr ⟨hkey, by decide⟩⟩
  have hwritten : punctuated.written = "\"a.b: >\":>\"\n<.:\" .é.:<\"\"" := by decide
  have hparse := (parse_written punctuated).1 hexpressible
  rw [hwritten] at hparse
  exact ⟨(parse_written punctuated).2 _ hparse, hwritten, hparse⟩

end PathStore
