import Mathlib.Data.Finset.Card
import Mathlib.Data.List.Sort
import PathStore.Ordered.Map
import PathStore.Ordered.Set

/-!
# Laws of ordered sets and maps

A set is determined by its members and a map is read through its keys.  Membership of a set and the
value at a key are all that the rest of the theory looks at.
-/

namespace PathStore

/-- A list that ascends by a key of its members is determined by them. -/
theorem eq_of_ascending {α κ : Type} [LT κ] [LE κ] [Std.LawfulOrderLT κ] [Std.IsLinearOrder κ]
    (key : α → κ) {list other : List α} (hlist : list.Pairwise fun a b ↦ key a < key b)
    (hother : other.Pairwise fun a b ↦ key a < key b) (h : ∀ a, a ∈ list ↔ a ∈ other) :
    list = other := by
  have : Std.Antisymm fun a b ↦ key a < key b :=
    ⟨fun a b hlt hgt ↦ absurd hgt (Std.Asymm.asymm (key a) (key b) hlt)⟩
  have : Std.Irrefl fun a b ↦ key a < key b := ⟨fun _ ↦ Std.lt_irrefl⟩
  exact hlist.eq_of_mem_iff hother h

namespace OrderedSet

section members

variable {α : Type} [LT α]

@[simp]
theorem mem_toList {s : OrderedSet α} {a : α} : a ∈ s.toList ↔ a ∈ s :=
  Iff.rfl

@[simp]
theorem not_mem_empty (a : α) : a ∉ (empty : OrderedSet α) :=
  List.not_mem_nil

theorem isEmpty_iff {s : OrderedSet α} : s.isEmpty ↔ s = empty := by
  rcases s with ⟨members, hmembers⟩
  simp [isEmpty, empty]

@[simp]
theorem contains_iff [DecidableEq α] {s : OrderedSet α} {a : α} : s.contains a ↔ a ∈ s :=
  decide_eq_true_iff

end members

section order

variable {α : Type} [LT α] [LE α] [Std.LawfulOrderLT α]

theorem nodup (s : OrderedSet α) : s.toList.Nodup :=
  s.ascending.imp fun {a b} (h : a < b) (heq : a = b) ↦ Std.lt_irrefl (heq ▸ h)

/-- A set has no more members than a list in which they all stand. -/
theorem size_le_of_subset {s : OrderedSet α} {list : List α} (h : ∀ a ∈ s, a ∈ list) :
    s.size ≤ list.length :=
  s.nodup.length_le_of_subset h

variable [Std.IsLinearOrder α]

/-- Sets with the same members are equal, since each has one list. -/
theorem ext {s t : OrderedSet α} (h : ∀ a, a ∈ s ↔ a ∈ t) : s = t := by
  rcases s with ⟨l, hl⟩
  rcases t with ⟨m, hm⟩
  obtain rfl : l = m := hl.eq_of_mem_iff hm h
  rfl

variable [DecidableEq α] [DecidableLT α]

/-- Putting a member in changes a set just when the member is new. -/
theorem insert_eq_self_iff {s : OrderedSet α} {a : α} : s.insert a = s ↔ a ∈ s := by
  constructor
  · intro h
    rw [← h]
    exact mem_insert.mpr (.inl rfl)
  · intro h
    apply ext
    intro b
    constructor
    · intro hb
      rcases mem_insert.mp hb with rfl | hmem
      · exact h
      · exact hmem
    · intro hb
      exact mem_insert.mpr (.inr hb)

omit [DecidableLT α] in
/-- Taking a member out changes a set just when it is there. -/
theorem erase_eq_self_iff {s : OrderedSet α} {a : α} : s.erase a = s ↔ a ∉ s := by
  constructor
  · intro h hmem
    rw [← h] at hmem
    exact (mem_erase.mp hmem).2 rfl
  · intro h
    apply ext
    intro b
    rw [mem_erase]
    exact and_iff_left_of_imp fun hb heq ↦ h (heq ▸ hb)

@[simp]
theorem isEmpty_insert (s : OrderedSet α) (a : α) : (s.insert a).isEmpty = false :=
  List.isEmpty_eq_false_iff_exists_mem.mpr ⟨a, mem_insert.mpr (.inl rfl)⟩

theorem mem_foldl_insert {members : List α} {s : OrderedSet α} {a : α} :
    a ∈ members.foldl insert s ↔ a ∈ s ∨ a ∈ members := by
  induction members generalizing s with
  | nil => simp
  | cons b rest ih =>
    rw [List.foldl_cons, ih, mem_insert, List.mem_cons]
    grind

@[simp]
theorem mem_ofList {members : List α} {a : α} : a ∈ ofList members ↔ a ∈ members := by
  simp [ofList, mem_foldl_insert]

/-- A set is that of any list with the same members, in any order. -/
theorem ofList_eq_iff {members : List α} {s : OrderedSet α} :
    ofList members = s ↔ ∀ a, a ∈ s ↔ a ∈ members := by
  constructor
  · rintro rfl a
    exact mem_ofList
  · intro h
    exact ext fun a ↦ mem_ofList.trans (h a).symm

end order

end OrderedSet

namespace Entries

variable {κ β : Type} [DecidableEq κ]

theorem mem_of_get? {entries : List (κ × β)} {key : κ} {value : β}
    (h : get? entries key = some value) : (key, value) ∈ entries := by
  induction entries with
  | nil => cases h
  | cons entry rest ih =>
    rcases entry with ⟨k, v⟩
    grind [get?]

/-- In an ascending list, an entry is the one that is found at its key. -/
theorem get?_of_mem [LT κ] [LE κ] [Std.IsLinearOrder κ] [Std.LawfulOrderLT κ]
    {entries : List (κ × β)} (hasc : Ascending entries) {key : κ} {value : β}
    (h : (key, value) ∈ entries) : get? entries key = some value := by
  induction entries with
  | nil => cases h
  | cons entry rest ih =>
    rcases entry with ⟨k, v⟩
    obtain ⟨hhead, hrest⟩ := List.pairwise_cons.mp hasc
    rw [get?]
    rcases List.mem_cons.mp h with heq | hmem
    · obtain ⟨rfl, rfl⟩ := Prod.mk.inj heq
      rw [if_pos rfl]
    · have hlt : k < key := hhead _ hmem
      have hne : k ≠ key := by
        intro heq
        exact Std.lt_irrefl (heq ▸ hlt)
      rw [if_neg hne, ih hrest hmem]

theorem length_insert [LT κ] [DecidableLT κ] {entries : List (κ × β)} {key : κ}
    (h : get? entries key = none) (value : β) :
    (insert entries key value).length = entries.length + 1 := by
  induction entries with
  | nil => rfl
  | cons entry rest ih =>
    rcases entry with ⟨k, v⟩
    grind [get?, insert]

end Entries

namespace OrderedMap

variable {κ β : Type} [LT κ] [DecidableEq κ]

@[simp]
theorem get?_empty (key : κ) : (empty : OrderedMap κ β).get? key = none :=
  rfl

section order

variable [LE κ] [Std.IsLinearOrder κ] [Std.LawfulOrderLT κ] {map other : OrderedMap κ β}

theorem mem_entries_iff {key : κ} {value : β} :
    (key, value) ∈ map.entries ↔ map.get? key = some value :=
  ⟨Entries.get?_of_mem map.ascending, Entries.mem_of_get?⟩

/-- Maps with the same values at all keys are equal. -/
theorem ext (h : ∀ key value, map.get? key = some value ↔ other.get? key = some value) :
    map = other := by
  have hentries : map.entries = other.entries := by
    apply eq_of_ascending Prod.fst map.ascending other.ascending
    intro entry
    rw [mem_entries_iff, mem_entries_iff, h]
  cases map
  cases other
  cases hentries
  rfl

/-- A new key makes one entry more. -/
theorem size_insert [DecidableLT κ] {key : κ} (h : map.get? key = none) (value : β) :
    (map.insert key value).size = map.size + 1 :=
  Entries.length_insert h value

/-- The entries are counted by whatever stands for their keys. -/
theorem size_eq_card {ι : Type} [DecidableEq ι] {s : Finset ι} {f : ι → κ}
    (hf : Function.Injective f)
    (h : ∀ key, (∃ value, map.get? key = some value) ↔ ∃ i ∈ s, f i = key) : map.size = s.card := by
  have hnodup : (map.entries.map Prod.fst).Nodup := by
    apply List.pairwise_map.mpr
    apply map.ascending.imp
    intro a b hlt heq
    exact Std.lt_irrefl (heq ▸ hlt)
  have hkeys : (map.entries.map Prod.fst).toFinset = s.image f := by
    ext key
    rw [List.mem_toFinset, Finset.mem_image, ← h]
    simp [mem_entries_iff]
  calc
    map.size = (map.entries.map Prod.fst).length := (List.length_map Prod.fst).symm
    _ = (map.entries.map Prod.fst).toFinset.card := (List.toFinset_card_of_nodup hnodup).symm
    _ = s.card := by rw [hkeys, Finset.card_image_of_injective s hf]

end order

end OrderedMap

end PathStore
