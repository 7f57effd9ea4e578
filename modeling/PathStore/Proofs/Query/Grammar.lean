import Mathlib.Data.List.Forall2
import PathStore.Query.Reading

/-!
# The grammar of queries

```
query      := blank* (comparison (blank+ comparison)*)? blank*
comparison := operand ':' ('>' | '<')? operand
operand    := word | quoted
word       := (letter | digit | '.')+
quoted     := '"' (any character but '"')* '"'
```

A derivation is described by the terms that it finds in a text: their operands as they are written,
and the sign between them.  What a term says as a comparison is a relation of its own, since dots
divide a word and mean nothing between quotes.  The rules do not ask for the longest word.
-/

namespace PathStore

/-- The rule `operand := word | quoted`. -/
inductive Operand.Derives : Operand → List Char → Prop
  | word {text : List Char} (hne : text ≠ []) (hchars : ∀ c ∈ text, isWordChar c) :
      Derives (.word text) text
  | quoted {text : List Char} (hquote : '"' ∉ text) :
      Derives (.quoted text) ('"' :: (text ++ ['"']))

/-- As a key, a word is a path of segments with dots between them, and a quoted text is one
segment. -/
inductive Operand.Denotes : Operand → Path → Prop
  | word {path : Path} (hne : path ≠ []) (hdots : ∀ segment ∈ path, '.' ∉ segment.toList) :
      Denotes (.word (".".intercalate path).toList) path
  | quoted (text : List Char) : Denotes (.quoted text) [String.ofList text]

def Operator.sign : Operator → List Char
  | .equal => []
  | .greater => ['>']
  | .less => ['<']

structure Term where
  key : Operand
  operator : Operator
  value : Operand

/-- The rule `comparison := operand ':' ('>' | '<')? operand`. -/
inductive Term.Derives : Term → List Char → Prop
  | mk {term : Term} {key value : List Char} (hkey : term.key.Derives key)
      (hvalue : term.value.Derives value) :
      Derives term (key ++ ':' :: (term.operator.sign ++ value))

/-- The term says what the comparison says; its value is taken as it stands. -/
structure Term.Denotes (term : Term) (comparison : Comparison) : Prop where
  key : term.key.Denotes comparison.key
  operator : term.operator = comparison.operator
  value : term.value.text = comparison.value

/-- Only white space, or nothing: `blank*`. -/
def IsGap (gap : List Char) : Prop :=
  ∀ c ∈ gap, isBlank c

/-- At least one comparison: `comparison (blank+ comparison)*`. -/
inductive DerivesTerms : List Term → List Char → Prop
  | one {term : Term} {text : List Char} (h : term.Derives text) : DerivesTerms [term] text
  | more {term : Term} {terms : List Term} {text gap rest : List Char} (h : term.Derives text)
      (hgap : IsGap gap) (hne : gap ≠ []) (hrest : DerivesTerms terms rest) :
      DerivesTerms (term :: terms) (text ++ (gap ++ rest))

/-- The rule `query := blank* (comparison (blank+ comparison)*)? blank*`. -/
inductive DerivesQuery : List Term → List Char → Prop
  | none {before after : List Char} (hbefore : IsGap before) (hafter : IsGap after) :
      DerivesQuery [] (before ++ after)
  | some {terms : List Term} {before text after : List Char} (hbefore : IsGap before)
      (hterms : DerivesTerms terms text) (hafter : IsGap after) :
      DerivesQuery terms (before ++ (text ++ after))

/-- The grammar derives the query from the text: the comparisons are what the terms of a derivation
say, in their order. -/
def Query.Derives (query : Query) (text : List Char) : Prop :=
  ∃ terms, DerivesQuery terms text ∧ List.Forall₂ Term.Denotes terms query

theorem not_isWordChar_of_isBlank {c : Char} (h : isBlank c) : isWordChar c = false := by
  have hblanks : ∀ n ∈ [0x09, 0x0A, 0x0B, 0x0C, 0x0D, 0x20, 0x85, 0xA0, 0x1680, 0x2000, 0x2001,
      0x2002, 0x2003, 0x2004, 0x2005, 0x2006, 0x2007, 0x2008, 0x2009, 0x200A, 0x2028, 0x2029,
      0x202F, 0x205F, 0x3000], alphanumericRanges.contains n = false := by decide +kernel
  have hdot : c ≠ '.' := by
    rintro rfl
    cases h
  rw [isWordChar, isAlphanumeric, hblanks, Bool.false_or, decide_eq_false hdot]
  simp only [isBlank, Bool.or_eq_true, Bool.and_eq_true, decide_eq_true_eq] at h
  simp only [List.mem_cons, List.not_mem_nil]
  omega

/-- An operand begins with a character that is neither white space nor a sign. -/
theorem Operand.Derives.head {operand : Operand} {text : List Char} (h : operand.Derives text) :
    ∃ c rest, text = c :: rest ∧ isBlank c = false ∧ c ≠ '>' ∧ c ≠ '<' := by
  cases h with
  | word hne hchars =>
    obtain ⟨c, rest, rfl⟩ := List.exists_cons_of_ne_nil hne
    have hword := hchars c List.mem_cons_self
    refine ⟨c, rest, rfl, ?_, ?_, ?_⟩
    · by_contra hblank
      rw [Bool.not_eq_false] at hblank
      cases (not_isWordChar_of_isBlank hblank).symm.trans hword
    · rintro rfl
      exact absurd hword (by decide +kernel)
    · rintro rfl
      exact absurd hword (by decide +kernel)
  | quoted hquote => exact ⟨_, _, rfl, by decide, by decide, by decide⟩

/-- So does a comparison. -/
theorem Term.Derives.head {term : Term} {text : List Char} (h : term.Derives text) :
    ∃ c rest, text = c :: rest ∧ isBlank c = false := by
  cases h with
  | mk hkey hvalue =>
    obtain ⟨c, rest, rfl, hblank, -⟩ := hkey.head
    exact ⟨c, _, rfl, hblank⟩

theorem Term.Derives.length_pos {term : Term} {text : List Char} (h : term.Derives text) :
    0 < text.length := by
  obtain ⟨c, rest, rfl, -⟩ := h.head
  exact Nat.succ_pos _

/-- Comparisons do not begin with white space. -/
theorem DerivesTerms.head {terms : List Term} {text : List Char} (h : DerivesTerms terms text) :
    ∃ c rest, text = c :: rest ∧ isBlank c = false := by
  cases h with
  | one h => exact h.head
  | more h =>
    obtain ⟨c, rest, rfl, hblank⟩ := h.head
    exact ⟨c, _, rfl, hblank⟩

theorem DerivesTerms.derives_of_mem {terms : List Term} {text : List Char}
    (h : DerivesTerms terms text) : ∀ term ∈ terms, ∃ written, term.Derives written := by
  induction h with
  | one h => exact List.forall_mem_singleton.mpr ⟨_, h⟩
  | more h _ _ _ ih => exact List.forall_mem_cons.mpr ⟨⟨_, h⟩, ih⟩

/-- The terms of a derivation are derived themselves. -/
theorem DerivesQuery.derives_of_mem {terms : List Term} {text : List Char}
    (h : DerivesQuery terms text) : ∀ term ∈ terms, ∃ written, term.Derives written := by
  cases h with
  | none => nofun
  | some _ hterms _ => exact hterms.derives_of_mem

/-- The text ends here, or white space follows. -/
def EndsTerm (rest : List Char) : Prop :=
  ∀ c ∈ rest.head?, isBlank c

theorem IsGap.append {first second : List Char} (h : IsGap first) (h' : IsGap second) :
    IsGap (first ++ second) :=
  List.forall_mem_append.mpr ⟨h, h'⟩

theorem IsGap.endsTerm {gap : List Char} (h : IsGap gap) : EndsTerm gap :=
  fun c hc ↦ h c (List.mem_of_mem_head? hc)

theorem IsGap.endsTerm_append {gap : List Char} (h : IsGap gap) (hne : gap ≠ [])
    (rest : List Char) : EndsTerm (gap ++ rest) := by
  cases gap with
  | nil => exact absurd rfl hne
  | cons c more => exact fun d hd ↦ Option.some.inj hd ▸ h c List.mem_cons_self

theorem DerivesQuery.of_gap {gap : List Char} (h : IsGap gap) : DerivesQuery [] gap :=
  List.append_nil gap ▸ .none h nofun

/-- A single comparison is a query. -/
theorem Term.Derives.derivesQuery {term : Term} {text : List Char} (h : term.Derives text) :
    DerivesQuery [term] text := by
  have hnone : IsGap [] := List.forall_mem_nil _
  simpa using DerivesQuery.some hnone (.one h) hnone

/-- A comparison may stand in front of a query that is set off from it. -/
theorem DerivesQuery.cons {term : Term} {terms : List Term} {gap text tail : List Char}
    (h : DerivesQuery terms tail) (hgap : IsGap gap) (hterm : term.Derives text)
    (hends : EndsTerm tail) : DerivesQuery (term :: terms) (gap ++ (text ++ tail)) := by
  cases h with
  | none hbefore hafter => exact .some hgap (.one hterm) (hbefore.append hafter)
  | @some terms before written after hbefore hterms hafter =>
    have hne : before ≠ [] := by
      rintro rfl
      obtain ⟨c, rest, rfl, hblank⟩ := hterms.head
      cases hblank.symm.trans (hends c rfl)
    have hmore := DerivesQuery.some hgap (.more hterm hbefore hne hterms) hafter
    simpa using hmore

/-- A query is nothing but white space, or a comparison stands in front of a query that is set off
from it. -/
theorem DerivesQuery.step {terms : List Term} {text : List Char} (h : DerivesQuery terms text) :
    terms = [] ∧ IsGap text ∨
      ∃ gap term more written tail, terms = term :: more ∧ text = gap ++ (written ++ tail) ∧
        IsGap gap ∧ term.Derives written ∧ EndsTerm tail ∧ DerivesQuery more tail := by
  cases h with
  | none hbefore hafter => exact .inl ⟨rfl, hbefore.append hafter⟩
  | @some terms before written after hbefore hterms hafter =>
    right
    cases hterms with
    | one h => exact ⟨before, _, [], written, after, rfl, rfl, hbefore, h, hafter.endsTerm,
        .of_gap hafter⟩
    | @more term terms written gap rest h hgap hne hrest =>
      refine ⟨before, term, terms, written, gap ++ (rest ++ after), rfl, ?_, hbefore, h,
        hgap.endsTerm_append hne _, .some hgap hrest hafter⟩
      simp

end PathStore
