/-!
# Maps in key order

A map is the list of its entries in strictly ascending order of their keys, so two maps with the
same entries are equal.  The operations on bare lists come first; those that only look for a key
need no order, and the lemmas on them have no hypothesis.
-/

namespace PathStore

namespace Entries

variable {κ β : Type}

def Ascending [LT κ] (entries : List (κ × β)) : Prop :=
  entries.Pairwise fun a b ↦ a.1 < b.1

def get? [DecidableEq κ] (entries : List (κ × β)) (key : κ) : Option β :=
  match entries with
  | [] => none
  | (k, value) :: rest => if k = key then some value else get? rest key

/-- Puts a value at a key, in place of the one that stands there. -/
def insert [LT κ] [DecidableLT κ] [DecidableEq κ] (entries : List (κ × β)) (key : κ) (value : β) :
    List (κ × β) :=
  match entries with
  | [] => [(key, value)]
  | (k, v) :: rest =>
    if key < k then (key, value) :: (k, v) :: rest
    else if key = k then (key, value) :: rest
    else (k, v) :: insert rest key value

def erase [DecidableEq κ] (entries : List (κ × β)) (key : κ) : List (κ × β) :=
  entries.filter fun entry ↦ entry.1 ≠ key

section lemmas

variable [LT κ] [DecidableLT κ] [DecidableEq κ]

theorem get?_insert (entries : List (κ × β)) (key : κ) (value : β) (k : κ) :
    get? (insert entries key value) k = if key = k then some value else get? entries k := by
  induction entries with
  | nil => simp [insert, get?]
  | cons entry rest ih =>
    obtain ⟨k', v⟩ := entry
    grind [insert, get?]

omit [LT κ] [DecidableLT κ] in
theorem get?_erase (entries : List (κ × β)) (key k : κ) :
    get? (erase entries key) k = if key = k then none else get? entries k := by
  induction entries with
  | nil => simp [erase, get?]
  | cons entry rest ih =>
    obtain ⟨k', v⟩ := entry
    grind [erase, get?]

/-- No other value stands at another key. -/
theorem mem_insert {entries : List (κ × β)} {key : κ} {value : β} {entry : κ × β} :
    entry ∈ insert entries key value → entry = (key, value) ∨ entry ∈ entries := by
  induction entries with
  | nil => simp [insert]
  | cons head rest ih =>
    obtain ⟨k, v⟩ := head
    grind [insert]

/-- A new key goes to its place. -/
theorem ascending_insert [LE κ] [Std.IsLinearOrder κ] [Std.LawfulOrderLT κ]
    {entries : List (κ × β)} (h : Ascending entries) (key : κ) (value : β) :
    Ascending (insert entries key value) := by
  induction entries with
  | nil => simp [insert, Ascending]
  | cons head rest ih =>
    obtain ⟨k, v⟩ := head
    obtain ⟨hhead, hrest⟩ := List.pairwise_cons.mp h
    rw [insert]
    split
    · rename_i hlt
      refine List.pairwise_cons.mpr ⟨?_, h⟩
      intro entry hentry
      rcases List.mem_cons.mp hentry with rfl | hmem
      · exact hlt
      · exact Std.lt_trans hlt (hhead entry hmem)
    · rename_i hlt
      split
      · rename_i heq
        subst heq
        exact List.pairwise_cons.mpr ⟨hhead, hrest⟩
      · rename_i hne
        refine List.pairwise_cons.mpr ⟨?_, ih hrest⟩
        intro entry hentry
        rcases mem_insert hentry with rfl | hmem
        · rcases Std.lt_trichotomy key k with hk | hk | hk
          · exact absurd hk hlt
          · exact absurd hk hne
          · exact hk
        · exact hhead entry hmem

omit [DecidableLT κ] in
theorem ascending_erase {entries : List (κ × β)} (h : Ascending entries) (key : κ) :
    Ascending (erase entries key) :=
  List.Pairwise.filter _ h

end lemmas

end Entries

/-! ## Maps -/

structure OrderedMap (κ β : Type) [LT κ] where
  entries : List (κ × β)
  ascending : Entries.Ascending entries

namespace OrderedMap

variable {κ β : Type} [LT κ]

def empty : OrderedMap κ β :=
  ⟨[], List.Pairwise.nil⟩

def size (map : OrderedMap κ β) : Nat :=
  map.entries.length

variable [DecidableEq κ]

def get? (map : OrderedMap κ β) (key : κ) : Option β :=
  Entries.get? map.entries key

def erase [DecidableLT κ] (map : OrderedMap κ β) (key : κ) : OrderedMap κ β :=
  ⟨Entries.erase map.entries key, Entries.ascending_erase map.ascending key⟩

variable [DecidableLT κ] [LE κ] [Std.IsLinearOrder κ] [Std.LawfulOrderLT κ]

/-- Puts a value at a key, in place of the one that stands there. -/
def insert (map : OrderedMap κ β) (key : κ) (value : β) : OrderedMap κ β :=
  ⟨Entries.insert map.entries key value, Entries.ascending_insert map.ascending key value⟩

@[simp]
theorem get?_insert (map : OrderedMap κ β) (key : κ) (value : β) (k : κ) :
    (map.insert key value).get? k = if key = k then some value else map.get? k :=
  Entries.get?_insert map.entries key value k

omit [LE κ] [Std.IsLinearOrder κ] [Std.LawfulOrderLT κ] in
@[simp]
theorem get?_erase (map : OrderedMap κ β) (key k : κ) :
    (map.erase key).get? k = if key = k then none else map.get? k :=
  Entries.get?_erase map.entries key k

end OrderedMap

end PathStore
