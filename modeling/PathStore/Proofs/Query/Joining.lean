import PathStore.Proofs.Query.Breaking

/-!
# Joining texts of queries

A readable text may stand in front of any text, with a space between the two: the comparisons of
both are read one after the other, and an error in the second text is the same error further on.
White space at the end of the first text and at the beginning of the second does no harm.  The
first text must be readable; nothing is said about what becomes of a text that is not.
-/

namespace PathStore

/-- White space behind a query sets all its comparisons off. -/
theorem DerivesQuery.setOff {terms : List Term} {text : List Char} (h : DerivesQuery terms text)
    {blank : Char} (hblank : isBlank blank) : SetOff terms (text ++ [blank]) := by
  have hlast : IsGap [blank] := List.forall_mem_singleton.mpr hblank
  induction terms generalizing text with
  | nil =>
    obtain ⟨-, hgap⟩ | ⟨gap, term, more, written, tail, hterms, -⟩ := h.step
    · exact .gap (hgap.append hlast)
    · cases hterms
  | cons first rest ih =>
    obtain ⟨hterms, -⟩ | ⟨gap, term, more, written, tail, hterms, rfl, hgap, hterm, hends, hmore⟩ :=
      h.step
    · cases hterms
    obtain ⟨rfl, rfl⟩ := List.cons.inj hterms
    have hset := ih hmore
    rw [List.append_assoc, List.append_assoc]
    cases tail with
    | nil => exact .cons hgap hterm hblank hset
    | cons c tail => exact .cons hgap hterm (hends c rfl) hset

/-- Behind comparisons that are set off, a break stays a break and moves on. -/
theorem BreaksQuery.append_left {terms : List Term} {before text : List Char} {error : QueryError}
    (h : BreaksQuery text error) (hbefore : SetOff terms before) :
    BreaksQuery (before ++ text) (error.shift before.length) := by
  cases h with
  | mk htext hblank h =>
    have hbreaks := BreaksQuery.mk (hbefore.append htext) hblank h
    simpa [Nat.add_comm] using hbreaks

namespace Query

/-- A readable text and a space may stand in front of any text: its comparisons come first, and an
error in the text behind is the same but for the position in its message, which is larger by what
stands in front. -/
theorem parse_append_space {first : String} {query : Query} (h : parse first = .ok query)
    (second : String) :
    (∀ more, parse second = .ok more → parse (first ++ " " ++ second) = .ok (query ++ more)) ∧
      ∀ error, parse second = .error error →
        parse (first ++ " " ++ second) = .error (error.shift (first.length + 1)) ∧
          error.message = error.opening ++ toString error.position ++ error.ending ∧
          (error.shift (first.length + 1)).message =
            error.opening ++ toString (error.position + (first.length + 1)) ++ error.ending := by
  obtain ⟨terms, hterms, rfl⟩ := derives_iff.mp (parse_eq_ok_iff.mp h)
  have hbefore : SetOff terms (first.toList ++ [' ']) := hterms.setOff rfl
  have hjoined : (first ++ " " ++ second).toList = first.toList ++ [' '] ++ second.toList := by
    simp
  constructor
  · intro more hmore
    obtain ⟨others, hothers, rfl⟩ := derives_iff.mp (parse_eq_ok_iff.mp hmore)
    rw [parse_eq_ok_iff, hjoined, derives_iff]
    exact ⟨terms ++ others, hbefore.append_derives hothers, List.map_append.symm⟩
  · intro error herror
    refine ⟨?_, error.message_eq, error.message_shift _⟩
    have hbreaks := (parse_eq_error_iff.mp herror).append_left hbefore
    rw [List.length_append, List.length_singleton, String.length_toList] at hbreaks
    rwa [parse_eq_error_iff, hjoined]

theorem parse_append_space_quoted :
    parse "a:\"x y\" " = .ok [⟨["a"], .equal, "x y"⟩] ∧
      parse "a:\"x y\"   b:>2" = .ok [⟨["a"], .equal, "x y"⟩, ⟨["b"], .greater, "2"⟩] ∧
      parse "b:2!" = .error (.missingBlank 3 ['!']) ∧
      parse "a:\"x y\"  b:2!" = .error (.missingBlank 12 ['!']) := by
  have hfirst : parse "a:\"x y\" " = .ok [⟨["a"], .equal, "x y"⟩] := by rfl
  have hsecond : parse " b:>2" = .ok [⟨["b"], .greater, "2"⟩] := by rfl
  have hthird : parse "b:2!" = .error (.missingBlank 3 ['!']) := by rfl
  exact ⟨hfirst, (parse_append_space hfirst " b:>2").1 _ hsecond, hthird,
    ((parse_append_space hfirst "b:2!").2 _ hthird).1⟩

end Query

end PathStore
