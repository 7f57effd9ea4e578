/-!
# Splitting a list at a separator

The parts of a list are what stands between its separators, so there is one part more than there are
separators, and any part may be empty.  Joining the parts again gives the list back.
-/

namespace PathStore

/-- The parts of a list between its elements equal to `separator`. -/
def splitAtEach {α : Type} [DecidableEq α] (separator : α) : List α → List (List α)
  | [] => [[]]
  | a :: rest =>
    match splitAtEach separator rest with
    | [] => [[a]]
    | part :: parts => if a = separator then [] :: part :: parts else (a :: part) :: parts

/-- The parts are those that the library finds. -/
theorem splitAtEach_eq_splitOn {α : Type} [DecidableEq α] (separator : α) (list : List α) :
    splitAtEach separator list = list.splitOn separator := by
  induction list with
  | nil => rfl
  | cons a rest ih =>
    rw [splitAtEach, ih, List.splitOn_cons_eq_if_modifyHead]
    cases hparts : rest.splitOn separator with
    | nil => exact absurd hparts (List.splitOn_ne_nil separator rest)
    | cons part parts => simp

/-- There is a first part. -/
theorem splitAtEach_ne_nil {α : Type} [DecidableEq α] (separator : α) (list : List α) :
    splitAtEach separator list ≠ [] := by
  rw [splitAtEach_eq_splitOn]
  exact List.splitOn_ne_nil separator list

/-- No part holds a separator. -/
theorem not_mem_of_mem_splitAtEach {α : Type} [DecidableEq α] {separator : α} {list part : List α}
    (h : part ∈ splitAtEach separator list) : separator ∉ part := by
  induction list generalizing part with
  | nil => simp_all [splitAtEach]
  | cons a rest ih =>
    rw [splitAtEach] at h
    split at h
    · rename_i hparts
      exact absurd hparts (splitAtEach_ne_nil separator rest)
    · rename_i hparts
      grind

/-- The parts hold only what the list holds. -/
theorem mem_of_mem_splitAtEach {α : Type} [DecidableEq α] {separator a : α} {list part : List α}
    (h : part ∈ splitAtEach separator list) (ha : a ∈ part) : a ∈ list := by
  induction list generalizing part with
  | nil => simp_all [splitAtEach]
  | cons b rest ih =>
    rw [splitAtEach] at h
    split at h
    · rename_i hparts
      exact absurd hparts (splitAtEach_ne_nil separator rest)
    · rename_i hparts
      grind

/-- Joining the parts again gives the list back. -/
theorem intercalate_splitAtEach {α : Type} [DecidableEq α] (separator : α) (list : List α) :
    [separator].intercalate (splitAtEach separator list) = list := by
  rw [splitAtEach_eq_splitOn, List.intercalate_splitOn]

/-- What a joined list holds comes from a part or separates two. -/
theorem mem_of_mem_intercalate {α : Type} {separator a : α} {parts : List (List α)}
    (h : a ∈ [separator].intercalate parts) : a = separator ∨ ∃ part ∈ parts, a ∈ part := by
  induction parts with
  | nil => cases h
  | cons part rest ih =>
    cases rest with
    | nil =>
      have hpart : a ∈ part := by simpa [List.intercalate] using h
      exact .inr ⟨part, List.mem_cons_self, hpart⟩
    | cons next rest =>
      have hcons : [separator].intercalate (part :: next :: rest) =
          part ++ separator :: [separator].intercalate (next :: rest) := by
        simp [List.intercalate]
      rw [hcons, List.mem_append, List.mem_cons] at h
      rcases h with hpart | heq | hrest
      · exact .inr ⟨part, List.mem_cons_self, hpart⟩
      · exact .inl heq
      · rcases ih hrest with heq | ⟨other, hother, hmem⟩
        · exact .inl heq
        · exact .inr ⟨other, List.mem_cons_of_mem _ hother, hmem⟩

/-- The parts of a joined list are the lists that were joined. -/
theorem splitAtEach_intercalate {α : Type} [DecidableEq α] {separator : α} {parts : List (List α)}
    (hne : parts ≠ []) (hparts : ∀ part ∈ parts, separator ∉ part) :
    splitAtEach separator ([separator].intercalate parts) = parts := by
  rw [splitAtEach_eq_splitOn, List.splitOn_intercalate separator hparts hne]

/-- Texts without dots are what stands between the dots when they are joined by dots. -/
theorem splitAtEach_toList_intercalate {texts : List String} (hne : texts ≠ [])
    (hdots : ∀ text ∈ texts, '.' ∉ text.toList) :
    splitAtEach '.' (".".intercalate texts).toList = texts.map String.toList := by
  have hparts : ∀ part ∈ texts.map String.toList, '.' ∉ part := by
    intro part hpart
    obtain ⟨text, htext, rfl⟩ := List.mem_map.mp hpart
    exact hdots text htext
  have hdot : ".".toList = ['.'] := rfl
  rw [String.toList_intercalate, hdot,
    splitAtEach_intercalate (mt List.map_eq_nil_iff.mp hne) hparts]

example : splitAtEach '.' "a..b".toList = [['a'], [], ['b']] := by decide

end PathStore
