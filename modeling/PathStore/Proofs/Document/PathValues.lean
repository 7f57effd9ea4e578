import Mathlib.Data.List.Basic
import PathStore.Proofs.Document.Keys
import PathStore.Query.Basic
import PathStore.Text.Split

/-!
# What a query finds under its path-values

A comparison reaches a value key by key, while the index joins the keys on the way down.  The two
agree except at the root: joining takes an empty text for the root itself, so a first key that is
empty leaves no trace when another one follows.  Every path-value comes from a scalar to which some
path leads, though not always from the path of the equality that asks for it; it does where keys are
plain, that is without the marks that join them.
-/

namespace PathStore

def Path.StartsEmpty (path : Path) : Prop :=
  path.head? = some "" ∧ 2 ≤ path.length

instance (path : Path) : Decidable path.StartsEmpty :=
  inferInstanceAs (Decidable (_ ∧ _))

/-- The path as the index joins it: the path below the root of the last of its keys. -/
def Path.joined (path : Path) : String :=
  path.foldl memberPath ""

theorem memberPath_of_ne {above : String} (h : above ≠ "") (key : String) :
    memberPath above key = above ++ "." ++ key := by
  rw [memberPath, if_neg]
  rwa [String.isEmpty_iff]

/-- Below the root, joining member by member is putting dots between the keys. -/
theorem foldl_memberPath {above : String} {path : Path} (h : above ≠ "" ∨ path = []) :
    path.foldl memberPath above = ".".intercalate (above :: path) := by
  induction path generalizing above with
  | nil => simp
  | cons key rest ih =>
    have hne : above ≠ "" := h.resolve_right nofun
    have hbelow : above ++ "." ++ key ≠ "" := by simp [String.append_eq_empty_iff, hne]
    calc
      (key :: rest).foldl memberPath above = rest.foldl memberPath (above ++ "." ++ key) := by
        rw [List.foldl_cons, memberPath_of_ne hne]
      _ = ".".intercalate ((above ++ "." ++ key) :: rest) := ih (.inl hbelow)
      _ = ".".intercalate (above :: key :: rest) := by
        rw [String.intercalate_cons_append, String.intercalate_cons_cons]

/-- The index joins a path as a query does, unless the path starts with an empty key and goes on. -/
theorem Path.joined_eq_intercalate {path : Path} (h : ¬ path.StartsEmpty) :
    path.joined = ".".intercalate path := by
  cases path with
  | nil => simp [joined]
  | cons key rest =>
    have hroot : memberPath "" key = key := rfl
    rw [joined, List.foldl_cons, hroot]
    refine foldl_memberPath ?_
    by_contra hor
    rw [not_or, ne_eq, not_not] at hor
    have hlength := List.length_pos_iff.mpr hor.2
    exact h ⟨congrArg some hor.1, Nat.succ_le_succ hlength⟩

/-- What stands under a member stands under the object. -/
theorem mem_memberPathValues {members : Document} {key above pathValue : String} {member : Json}
    (hmember : Entries.get? members key = some member)
    (h : pathValue ∈ member.pathValues (memberPath above key)) :
    pathValue ∈ memberPathValues above members := by
  induction members with
  | nil => cases hmember
  | cons entry rest ih =>
    rcases entry with ⟨k, value⟩
    rw [Entries.get?] at hmember
    rw [memberPathValues, List.mem_append]
    split at hmember
    · rename_i heq
      obtain rfl := Option.some.inj hmember
      subst heq
      exact .inl h
    · exact .inr (ih hmember)

theorem Json.pathValues_of_not_isCompound {value : Json} (h : value.isCompound = false)
    (path : String) : value.pathValues path = [path ++ "=" ++ value.rendering] := by
  cases value with
  | null | bool | number | string => rfl
  | array | object => cases h

/-- A scalar to which a path leads is found by the walk, under the path as the index joins it. -/
theorem Json.mem_pathValues_of_descend? {value scalar : Json} {path : Path}
    (h : value.descend? path = some scalar) (hscalar : scalar.isCompound = false)
    (above : String) :
    path.foldl memberPath above ++ "=" ++ scalar.rendering ∈ value.pathValues above := by
  induction path generalizing value above with
  | nil =>
    obtain rfl := Option.some.inj h
    rw [pathValues_of_not_isCompound hscalar, List.mem_singleton, List.foldl_nil]
  | cons key rest ih =>
    obtain ⟨members, member, rfl, hmember, hrest⟩ := descend?_cons_eq_some_iff.mp h
    exact mem_memberPathValues hmember (ih hrest (memberPath above key))

mutual

/-- A path-value shows a scalar to which a path leads. -/
theorem Json.exists_of_mem_pathValues {value : Json} (hvalue : value.KeysAscend)
    {above pathValue : String} (h : pathValue ∈ value.pathValues above) :
    ∃ path scalar, value.descend? path = some scalar ∧ scalar.isCompound = false ∧
      pathValue = path.foldl memberPath above ++ "=" ++ scalar.rendering := by
  match value with
  | .object members =>
    obtain ⟨hascending, hmembers⟩ := Json.keysAscend_object_iff.mp hvalue
    obtain ⟨key, member, path, scalar, hmem, hscalar, hcompound, hpath⟩ :=
      exists_of_mem_memberPathValues hmembers h
    have hget := Entries.get?_of_mem hascending hmem
    have hpath' := Json.descend?_cons_eq_some_iff.mpr ⟨members, member, rfl, hget, hscalar⟩
    exact ⟨key :: path, scalar, hpath', hcompound, hpath⟩
  | .array _ => cases h
  | .null => exact ⟨[], _, rfl, rfl, List.mem_singleton.mp h⟩
  | .bool _ => exact ⟨[], _, rfl, rfl, List.mem_singleton.mp h⟩
  | .number _ => exact ⟨[], _, rfl, rfl, List.mem_singleton.mp h⟩
  | .string _ => exact ⟨[], _, rfl, rfl, List.mem_singleton.mp h⟩
termination_by structural value

/-- Every path-value comes from a scalar to which some path leads. -/
theorem exists_of_mem_memberPathValues {members : Document}
    (hmembers : ∀ member ∈ members, member.2.KeysAscend) {above pathValue : String}
    (h : pathValue ∈ memberPathValues above members) :
    ∃ key member path scalar, (key, member) ∈ members ∧ member.descend? path = some scalar ∧
      scalar.isCompound = false ∧
      pathValue = path.foldl memberPath (memberPath above key) ++ "=" ++ scalar.rendering := by
  match members with
  | (key, value) :: rest =>
    obtain ⟨hvalue, hrest⟩ := List.forall_mem_cons.mp hmembers
    rcases List.mem_append.mp h with hfirst | hlater
    · obtain ⟨path, scalar, hscalar⟩ := Json.exists_of_mem_pathValues hvalue hfirst
      exact ⟨key, value, path, scalar, List.mem_cons_self, hscalar⟩
    · obtain ⟨key, member, path, scalar, hmem, hscalar⟩ :=
        exists_of_mem_memberPathValues hrest hlater
      exact ⟨key, member, path, scalar, List.mem_cons_of_mem _ hmem, hscalar⟩
termination_by structural members

end

/-- A scalar at a path of a document gives the document its path-value. -/
theorem Document.mem_pathValues_of_resolve? {document : Document} {path : Path} {scalar : Json}
    (h : document.resolve? path = some scalar) (hscalar : scalar.isCompound = false) :
    path.joined ++ "=" ++ scalar.rendering ∈ document.pathValues := by
  rw [resolve?] at h
  split at h
  · cases h
  · exact OrderedSet.mem_ofList.mpr (Json.mem_pathValues_of_descend? h hscalar "")

/-- The path-values of a document show the scalars to which paths lead. -/
theorem Document.mem_pathValues_iff {document : Document}
    (hkeys : (Json.object document).KeysAscend) {pathValue : String} :
    pathValue ∈ document.pathValues ↔ ∃ path scalar, document.resolve? path = some scalar ∧
      scalar.isCompound = false ∧ pathValue = path.joined ++ "=" ++ scalar.rendering := by
  constructor
  · intro h
    obtain ⟨path, scalar, hscalar, hcompound, hpath⟩ :=
      Json.exists_of_mem_pathValues hkeys (OrderedSet.mem_ofList.mp h)
    have hne : path ≠ [] := by
      rintro rfl
      obtain rfl := Option.some.inj hscalar
      cases hcompound
    refine ⟨path, scalar, ?_, hcompound, hpath⟩
    rwa [resolve?, if_neg (mt List.isEmpty_iff.mp hne)]
  · rintro ⟨path, scalar, hscalar, hcompound, rfl⟩
    exact mem_pathValues_of_resolve? hscalar hcompound

/-! ## Plain paths -/

/-- The keys hold neither of the marks between the parts of a path-value. -/
def Path.IsPlain (path : Path) : Prop :=
  ∀ key ∈ path, '.' ∉ key.toList ∧ '=' ∉ key.toList

instance (path : Path) : Decidable path.IsPlain :=
  inferInstanceAs (Decidable (∀ key ∈ path, _))

/-- In the text of a plain path no equals sign stands, so it ends at the first one of a
path-value. -/
theorem Path.IsPlain.not_mem_intercalate {path : Path} (h : path.IsPlain) :
    '=' ∉ (".".intercalate path).toList := by
  induction path with
  | nil => simp
  | cons key rest ih =>
    obtain ⟨hkey, hrest⟩ := List.forall_mem_cons.mp h
    cases rest with
    | nil => simpa using hkey.2
    | cons next rest =>
      have hjoined := ih hrest
      rw [String.intercalate_cons_cons, String.toList_append, String.toList_append,
        List.mem_append, List.mem_append]
      simp_all

/-- A plain path can be told from its joined form, if no key of it is empty. -/
theorem Path.IsPlain.eq_of_intercalate_eq {path other : Path} (h : path.IsPlain)
    (h' : other.IsPlain) (hne : path ≠ []) (hkeys : "" ∉ path)
    (heq : ".".intercalate path = ".".intercalate other) : path = other := by
  have hpath := splitAtEach_toList_intercalate hne fun key hkey ↦ (h key hkey).1
  rw [heq] at hpath
  by_cases hnil : other = []
  · subst hnil
    obtain ⟨key, rest, rfl⟩ := List.exists_cons_of_ne_nil hne
    have hempty : [] = key.toList := (List.cons.inj hpath).1
    exact absurd (String.toList_eq_nil_iff.mp hempty.symm ▸ List.mem_cons_self) hkeys
  · have hother := splitAtEach_toList_intercalate hnil fun key hkey ↦ (h' key hkey).1
    exact List.map_injective_iff.mpr (fun _ _ ↦ String.toList_injective) (hpath.symm.trans hother)

/-- Everything before the first equals sign of a path-value is its path. -/
theorem Path.IsPlain.eq_of_pathValue_eq {path other : Path} {value text : String}
    (h : path.IsPlain) (h' : other.IsPlain) (hne : path ≠ []) (hkeys : "" ∉ path)
    (heq : pathValue path value = pathValue other text) : path = other ∧ value = text := by
  have hlists : (".".intercalate path).toList ++ '=' :: value.toList =
      (".".intercalate other).toList ++ '=' :: text.toList := by
    simpa [pathValue] using congrArg String.toList heq
  have hparts := congrArg (List.splitOn '=') hlists
  rw [List.splitOn_append_cons_self_of_not_mem h.not_mem_intercalate,
    List.splitOn_append_cons_self_of_not_mem h'.not_mem_intercalate] at hparts
  have hpaths := (List.cons.inj hparts).1
  rw [hpaths] at hlists
  have hvalues := (List.cons.inj (List.append_cancel_left hlists)).2
  exact ⟨h.eq_of_intercalate_eq h' hne hkeys (String.toList_injective hpaths),
    String.toList_injective hvalues⟩

theorem Document.not_startsEmpty_of_resolve? {document : Document} {path : Path} {value : Json}
    (hroot : ∀ members, Entries.get? document "" ≠ some (.object members))
    (h : document.resolve? path = some value) : ¬ path.StartsEmpty := by
  intro hstarts
  rcases hstarts with ⟨hhead, hlength⟩
  match path with
  | first :: second :: rest =>
    obtain rfl := Option.some.inj hhead
    have hroute : (Json.object document).descend? ("" :: second :: rest) = some value := h
    obtain ⟨_, _, hdocument, hmember, hbelow⟩ := Json.descend?_cons_eq_some_iff.mp hroute
    obtain ⟨members, _, rfl, -, -⟩ := Json.descend?_cons_eq_some_iff.mp hbelow
    obtain rfl := Json.object.inj hdocument
    exact hroot members hmember

/-- The index leaves out no document in which an equality holds, unless the equality asks for a
member of what stands under an empty key. -/
theorem Comparison.pathValue_mem {comparison : Comparison} {document : Document}
    (hequality : comparison.isEquality) (hholds : comparison.holdsIn document)
    (hkey : ¬ comparison.key.StartsEmpty ∨
      ∀ members, Entries.get? document "" ≠ some (.object members)) :
    comparison.pathValue ∈ document.pathValues := by
  rw [isEquality, decide_eq_true_eq] at hequality
  rw [holdsIn, hequality] at hholds
  split at hholds
  · rename_i scalar hscalar
    rw [Operator.holds, Bool.and_eq_true, Bool.not_eq_true', decide_eq_true_eq] at hholds
    obtain ⟨hcompound, hrendering⟩ := hholds
    have hnot : ¬ comparison.key.StartsEmpty :=
      hkey.elim id (Document.not_startsEmpty_of_resolve? · hscalar)
    have hmem := Document.mem_pathValues_of_resolve? hscalar hcompound
    rwa [Path.joined_eq_intercalate hnot, hrendering] at hmem
  · cases hholds

/-- A document that satisfies a query has the path-values of all equalities, where empty first keys
do no harm. -/
theorem Query.pathValues_subset {query : Query} {document : Document}
    (hholds : query.holdsIn document)
    (hkeys : ∀ comparison ∈ query.equalities, ¬ comparison.key.StartsEmpty ∨
      ∀ members, Entries.get? document "" ≠ some (.object members)) :
    ∀ pathValue ∈ query.pathValues, pathValue ∈ document.pathValues := by
  intro pathValue hmem
  obtain ⟨comparison, hequality, rfl⟩ := List.mem_map.mp hmem
  obtain ⟨hin, hequal⟩ := List.mem_filter.mp hequality
  exact Comparison.pathValue_mem hequal (List.all_eq_true.mp hholds _ hin) (hkeys _ hequality)

/-- On the way to any value, the keys are plain and none is empty. -/
def Json.HasPlainKeys (value : Json) : Prop :=
  ∀ (path : Path) target, value.descend? path = some target → path.IsPlain ∧ "" ∉ path

theorem Json.hasPlainKeys_of_not_object {value : Json} (h : ∀ members, value ≠ .object members) :
    value.HasPlainKeys := by
  intro path target hpath
  cases path with
  | nil => exact ⟨nofun, nofun⟩
  | cons key rest =>
    obtain ⟨members, -, hvalue, -⟩ := descend?_cons_eq_some_iff.mp hpath
    exact absurd hvalue (h members)

/-- It is enough that every object has such keys. -/
theorem Json.hasPlainKeys_object {members : Document}
    (h : ∀ member ∈ members, member.1 ≠ "" ∧ ('.' ∉ member.1.toList ∧ '=' ∉ member.1.toList) ∧
      member.2.HasPlainKeys) : (Json.object members).HasPlainKeys := by
  intro path target hpath
  cases path with
  | nil => exact ⟨nofun, nofun⟩
  | cons key rest =>
    obtain ⟨_, member, hmembers, hmember, hrest⟩ := descend?_cons_eq_some_iff.mp hpath
    obtain rfl := object.inj hmembers
    obtain ⟨hkey, hplain, hbelow⟩ := h _ (Entries.mem_of_get? hmember)
    obtain ⟨hrest, hkeys⟩ := hbelow rest target hrest
    exact ⟨List.forall_mem_cons.mpr ⟨hplain, hrest⟩,
      List.not_mem_cons_of_ne_of_not_mem hkey.symm hkeys⟩

/-- Where keys are plain, a document has the path-value of an equality exactly if the equality holds
in it. -/
theorem Comparison.pathValue_mem_iff {comparison : Comparison} {document : Document}
    (hequality : comparison.isEquality) (hplain : comparison.key.IsPlain)
    (hascend : (Json.object document).KeysAscend) (hkeys : (Json.object document).HasPlainKeys) :
    comparison.pathValue ∈ document.pathValues ↔ comparison.holdsIn document := by
  constructor
  · intro hmem
    obtain ⟨path, scalar, hscalar, hcompound, hpath⟩ :=
      (Document.mem_pathValues_iff hascend).mp hmem
    have hne : path ≠ [] := by
      rintro rfl
      cases hscalar
    have hroute : (Json.object document).descend? path = some scalar := by
      rwa [Document.resolve?, if_neg (mt List.isEmpty_iff.mp hne)] at hscalar
    obtain ⟨hpathPlain, hempty⟩ := hkeys path scalar hroute
    have hstarts : ¬ path.StartsEmpty := by
      intro h
      exact hempty (List.mem_of_head? h.1)
    rw [Path.joined_eq_intercalate hstarts] at hpath
    obtain ⟨rfl, hvalue⟩ := hpathPlain.eq_of_pathValue_eq hplain hne hempty hpath.symm
    rw [isEquality, decide_eq_true_eq] at hequality
    simp [holdsIn, hscalar, hequality, Operator.holds, hcompound, hvalue]
  · intro hholds
    apply pathValue_mem hequality hholds
    right
    intro members hroot
    have hroute : (Json.object document).descend? [""] = some (.object members) :=
      Json.descend?_cons_eq_some_iff.mpr ⟨document, _, rfl, hroot, rfl⟩
    exact (hkeys _ _ hroute).2 (List.mem_singleton_self "")

end PathStore
