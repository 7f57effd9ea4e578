/-!
# Sets in order

A set is the list of its members in strictly ascending order, so sets with the same members are
equal and their members come in one order only.
-/

namespace PathStore

structure OrderedSet (α : Type) [LT α] where
  toList : List α
  ascending : toList.Pairwise (· < ·)

namespace OrderedSet

variable {α : Type} [LT α]

instance : Membership α (OrderedSet α) where
  mem s a := a ∈ s.toList

def empty : OrderedSet α :=
  ⟨[], List.Pairwise.nil⟩

instance : Inhabited (OrderedSet α) := ⟨empty⟩

def size (s : OrderedSet α) : Nat :=
  s.toList.length

def isEmpty (s : OrderedSet α) : Bool :=
  s.toList.isEmpty

variable [DecidableEq α]

instance : DecidableEq (OrderedSet α) := fun s t ↦
  decidable_of_iff (s.toList = t.toList) (by cases s; cases t; simp)

instance (a : α) (s : OrderedSet α) : Decidable (a ∈ s) :=
  inferInstanceAs (Decidable (a ∈ s.toList))

def contains (s : OrderedSet α) (a : α) : Bool :=
  a ∈ s

def erase (s : OrderedSet α) (a : α) : OrderedSet α :=
  ⟨s.toList.filter (· ≠ a), s.ascending.filter _⟩

variable [DecidableLT α]

/-- Puts a member into an ascending list. -/
def insertInto (a : α) : List α → List α
  | [] => [a]
  | x :: rest =>
    if a < x then a :: x :: rest
    else if a = x then x :: rest
    else x :: insertInto a rest

theorem mem_insertInto {a b : α} {members : List α} :
    b ∈ insertInto a members ↔ b = a ∨ b ∈ members := by
  induction members with
  | nil => simp [insertInto]
  | cons x rest ih => grind [insertInto]

variable [LE α] [Std.IsLinearOrder α] [Std.LawfulOrderLT α]

/-- A new member goes to its place, and one that is there is not put in again. -/
theorem ascending_insertInto {members : List α} (h : members.Pairwise (· < ·)) (a : α) :
    (insertInto a members).Pairwise (· < ·) := by
  induction members with
  | nil => simp [insertInto]
  | cons x rest ih =>
    obtain ⟨hhead, hrest⟩ := List.pairwise_cons.mp h
    rw [insertInto]
    split
    · rename_i hlt
      refine List.pairwise_cons.mpr ⟨?_, h⟩
      intro b hb
      rcases List.mem_cons.mp hb with rfl | hmem
      · exact hlt
      · exact Std.lt_trans hlt (hhead b hmem)
    · rename_i hlt
      split
      · exact h
      · rename_i hne
        refine List.pairwise_cons.mpr ⟨?_, ih hrest⟩
        intro b hb
        rcases mem_insertInto.mp hb with rfl | hmem
        · rcases Std.lt_trichotomy b x with hk | hk | hk
          · exact absurd hk hlt
          · exact absurd hk hne
          · exact hk
        · exact hhead b hmem

def insert (s : OrderedSet α) (a : α) : OrderedSet α :=
  ⟨insertInto a s.toList, ascending_insertInto s.ascending a⟩

def ofList (members : List α) : OrderedSet α :=
  members.foldl insert empty

@[simp]
theorem mem_insert {s : OrderedSet α} {a b : α} : b ∈ s.insert a ↔ b = a ∨ b ∈ s :=
  mem_insertInto

omit [DecidableLT α] [LE α] [Std.IsLinearOrder α] [Std.LawfulOrderLT α] in
@[simp]
theorem mem_erase {s : OrderedSet α} {a b : α} : b ∈ s.erase a ↔ b ∈ s ∧ b ≠ a := by
  change b ∈ s.toList.filter (· ≠ a) ↔ b ∈ s.toList ∧ b ≠ a
  simp

example : (ofList ["b", "a", "é", "b"]).toList = ["a", "b", "é"] := by decide

end OrderedSet

end PathStore
