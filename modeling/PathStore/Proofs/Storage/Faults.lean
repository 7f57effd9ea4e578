import PathStore.Proofs.Storage.Store

/-!
# Calls without faults

A schedule numbers its calls, so two states of it tell which calls lie between them, and whether one
of these fails.  What the schedule says of earlier and of later calls does not matter: a run can be
free of faults although the store has failed before and will fail again.
-/

namespace PathStore

namespace Schedule

/-- Calls lead from one state of the schedule to the other. -/
structure LeadsTo (before after : Schedule) : Prop where
  fails : after.fails = before.fails
  made : before.made ≤ after.made

/-- None of the calls between the two states fails. -/
def Passes (before after : Schedule) : Prop :=
  ∀ n, before.made ≤ n → n < after.made → before.fails n = false

variable {first second third : Schedule}

theorem LeadsTo.refl (schedule : Schedule) : schedule.LeadsTo schedule :=
  ⟨rfl, Nat.le_refl _⟩

theorem LeadsTo.trans (h : first.LeadsTo second) (h' : second.LeadsTo third) :
    first.LeadsTo third :=
  ⟨h'.fails.trans h.fails, Nat.le_trans h.made h'.made⟩

theorem leadsTo_advance (schedule : Schedule) (count : Nat) :
    schedule.LeadsTo (schedule.advance count) :=
  ⟨rfl, Nat.le_add_right _ _⟩

/-- If all calls pass, the first ones do. -/
theorem Passes.left (h : first.Passes third) (hlead : second.LeadsTo third) :
    first.Passes second :=
  fun n hle hlt ↦ h n hle (Nat.lt_of_lt_of_le hlt hlead.made)

/-- If all calls pass, the last ones do. -/
theorem Passes.right (h : first.Passes third) (hlead : first.LeadsTo second) :
    second.Passes third := by
  intro n hle hlt
  rw [hlead.fails]
  exact h n (Nat.le_trans hlead.made hle) hlt

theorem Passes.failsNext {schedule : Schedule} (h : schedule.Passes (schedule.advance 1)) :
    schedule.failsNext = false :=
  h schedule.made (Nat.le_refl _) (Nat.lt_succ_self _)

end Schedule

namespace Store

def scheduleOf (store : Store) : StoreCall → Schedule
  | .get => store.gets
  | .set => store.sets
  | .remove => store.removals
  | .scan => store.scans
  | .scanEnd => store.ends

/-- Calls lead from one state of the store to the other. -/
def LeadsTo (before after : Store) : Prop :=
  ∀ call, (before.scheduleOf call).LeadsTo (after.scheduleOf call)

/-- None of the calls between the two states fails. -/
def Passes (before after : Store) : Prop :=
  ∀ call, (before.scheduleOf call).Passes (after.scheduleOf call)

section runs

variable {first second third : Store}

theorem LeadsTo.refl (store : Store) : store.LeadsTo store :=
  fun _ ↦ .refl _

theorem LeadsTo.trans (h : first.LeadsTo second) (h' : second.LeadsTo third) :
    first.LeadsTo third :=
  fun call ↦ (h call).trans (h' call)

theorem Passes.left (h : first.Passes third) (hlead : second.LeadsTo third) :
    first.Passes second :=
  fun call ↦ (h call).left (hlead call)

theorem Passes.right (h : first.Passes third) (hlead : first.LeadsTo second) :
    second.Passes third :=
  fun call ↦ (h call).right (hlead call)

theorem Reliable.passes (h : first.Reliable) (after : Store) : first.Passes after := by
  intro call n hle _
  cases call with
  | get => exact h.gets n hle
  | set => exact h.sets n hle
  | remove => exact h.removals n hle
  | scan => exact h.scans n hle
  | scanEnd => exact h.ends n hle

end runs

section calls

variable {store : Store} {key value : Bytes}

theorem get_snd (store : Store) (key : Bytes) :
    (store.get key).2 = { store with gets := store.gets.advance 1 } := by
  unfold get
  split <;> rfl

theorem leadsTo_get (store : Store) (key : Bytes) : store.LeadsTo (store.get key).2 := by
  intro call
  rw [get_snd]
  cases call with
  | get => exact store.gets.leadsTo_advance 1
  | set | remove | scan | scanEnd => exact .refl _

/-- A read that passes tells the entry. -/
theorem get_of_passes (h : store.Passes (store.get key).2) :
    (store.get key).1 = .ok (store.entries.get? key) := by
  rw [get_snd] at h
  have hnext : store.gets.failsNext = false := (h .get).failsNext
  simp [get, hnext]

theorem leadsTo_set (store : Store) (key value : Bytes) :
    store.LeadsTo (store.set key value).2 := by
  intro call
  unfold set
  cases call with
  | set => split <;> exact store.sets.leadsTo_advance 1
  | get | remove | scan | scanEnd => split <;> exact .refl _

/-- A write that passes succeeds. -/
theorem set_of_passes (h : store.Passes (store.set key value).2) :
    (store.set key value).1 = .ok () := by
  unfold set at h ⊢
  split
  · rename_i hfails
    rw [if_pos hfails] at h
    cases hfails.symm.trans (h .set).failsNext
  · rfl

theorem leadsTo_remove (store : Store) (key : Bytes) : store.LeadsTo (store.remove key).2 := by
  intro call
  unfold remove
  cases call with
  | remove => split <;> exact store.removals.leadsTo_advance 1
  | get | set | scan | scanEnd => split <;> exact .refl _

theorem remove_of_passes (h : store.Passes (store.remove key).2) :
    (store.remove key).1 = .ok () := by
  unfold remove at h ⊢
  split
  · rename_i hfails
    rw [if_pos hfails] at h
    cases hfails.symm.trans (h .remove).failsNext
  · rfl

end calls

end Store

end PathStore
