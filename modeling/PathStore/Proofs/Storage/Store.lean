import PathStore.Proofs.Ordered
import PathStore.Storage.Store

/-!
# Laws of stores

Every call of a store either succeeds on the entries or leaves them alone, whatever the schedules
say.  Between two states no call has failed if the first is reliable, so that none can, or if none
had failed when the second was reached.  A call that fails refutes both, so the same theory covers
the runs with faults and those without.
-/

namespace PathStore

namespace Schedule

def Reliable (schedule : Schedule) : Prop :=
  ∀ n, schedule.made ≤ n → schedule.fails n = false

def Unfailed (schedule : Schedule) : Prop :=
  ∀ n < schedule.made, schedule.fails n = false

theorem reliable_reliable : reliable.Reliable :=
  fun _ _ ↦ rfl

section advance

variable {schedule : Schedule}

theorem Reliable.advance (h : schedule.Reliable) (count : Nat) :
    (schedule.advance count).Reliable :=
  fun n hn ↦ h n (Nat.le_trans (Nat.le_add_right _ _) hn)

theorem Unfailed.of_advance {count : Nat} (h : (schedule.advance count).Unfailed) :
    schedule.Unfailed :=
  fun n hn ↦ h n (Nat.lt_of_lt_of_le hn (Nat.le_add_right _ _))

theorem Reliable.failsNext (h : schedule.Reliable) : schedule.failsNext = false :=
  h _ (Nat.le_refl _)

theorem Unfailed.failsNext (h : (schedule.advance 1).Unfailed) : schedule.failsNext = false :=
  h _ (Nat.lt_succ_self _)

end advance

end Schedule

namespace Store

structure Reliable (store : Store) : Prop where
  gets : store.gets.Reliable
  sets : store.sets.Reliable
  removals : store.removals.Reliable
  scans : store.scans.Reliable
  ends : store.ends.Reliable

structure Unfailed (store : Store) : Prop where
  gets : store.gets.Unfailed
  sets : store.sets.Unfailed
  removals : store.removals.Unfailed
  scans : store.scans.Unfailed
  ends : store.ends.Unfailed

theorem reliable_empty (keyspace : Keyspace) : (empty keyspace).Reliable :=
  ⟨Schedule.reliable_reliable, Schedule.reliable_reliable, Schedule.reliable_reliable,
    Schedule.reliable_reliable, Schedule.reliable_reliable⟩

/-- Calls lead from one state to the other. -/
structure Follows (before after : Store) : Prop where
  reliable : before.Reliable → after.Reliable
  unfailed : after.Unfailed → before.Unfailed

/-- No call between the two states has failed. -/
def Spared (before after : Store) : Prop :=
  before.Reliable ∨ after.Unfailed

/-- What reading does to a store: the entries stay. -/
structure Unchanged (before after : Store) : Prop extends before.Follows after where
  entries : after.entries = before.entries

section follows

variable {first second third : Store}

theorem Follows.refl (store : Store) : store.Follows store :=
  ⟨id, id⟩

theorem Follows.trans (h : first.Follows second) (h' : second.Follows third) :
    first.Follows third :=
  ⟨h'.reliable ∘ h.reliable, h.unfailed ∘ h'.unfailed⟩

/-- If no call has failed, the last ones have not. -/
theorem Spared.right (h : first.Spared third) (hfollows : first.Follows second) :
    second.Spared third := by
  rcases h with hreliable | hunfailed
  · exact .inl (hfollows.reliable hreliable)
  · exact .inr hunfailed

theorem Unchanged.refl (store : Store) : store.Unchanged store :=
  ⟨.refl store, rfl⟩

theorem Unchanged.trans (h : first.Unchanged second) (h' : second.Unchanged third) :
    first.Unchanged third :=
  ⟨h.toFollows.trans h'.toFollows, h'.entries.trans h.entries⟩

end follows

/-- A scan reads and does not write. -/
theorem unchanged_scanned (store : Store) (looked : Nat) :
    store.Unchanged (store.scanned looked) where
  reliable h := ⟨h.gets, h.sets, h.removals, h.scans.advance _, h.ends.advance _⟩
  unfailed h := ⟨h.gets, h.sets, h.removals, h.scans.of_advance, h.ends.of_advance⟩
  entries := rfl

/-- Reading a key gives what the entries hold, or fails. -/
theorem get_cases (store : Store) (key : Bytes) :
    ∃ after, store.Unchanged after ∧
      (store.get key = (.ok (store.entries.get? key), after) ∨
        ¬ store.Spared after ∧ ∃ fault, store.get key = (.error fault, after)) := by
  refine ⟨{ store with gets := store.gets.advance 1 }, ⟨⟨?_, ?_⟩, rfl⟩, ?_⟩
  · intro h
    exact ⟨h.gets.advance 1, h.sets, h.removals, h.scans, h.ends⟩
  · intro h
    exact ⟨h.gets.of_advance, h.sets, h.removals, h.scans, h.ends⟩
  · unfold get
    split
    · rename_i hfails
      right
      refine ⟨?_, _, rfl⟩
      intro hspared
      have hnext := hspared.elim (·.gets.failsNext) (·.gets.failsNext)
      cases hfails.symm.trans hnext
    · exact .inl rfl

/-- Writing a key puts the value there, or fails and changes nothing. -/
theorem set_cases (store : Store) (key value : Bytes) :
    ∃ after, store.Follows after ∧
      (store.set key value = (.ok (), after) ∧ after.entries = store.entries.insert key value ∨
        ¬ store.Spared after ∧ (∃ fault, store.set key value = (.error fault, after)) ∧
          after.entries = store.entries) := by
  have hfollows (entries : OrderedMap Bytes Bytes) :
      store.Follows { store with entries := entries, sets := store.sets.advance 1 } := by
    constructor
    · intro h
      exact ⟨h.gets, h.sets.advance 1, h.removals, h.scans, h.ends⟩
    · intro h
      exact ⟨h.gets, h.sets.of_advance, h.removals, h.scans, h.ends⟩
  unfold set
  dsimp only
  split
  · rename_i hfails
    refine ⟨_, hfollows store.entries, ?_⟩
    right
    refine ⟨?_, ⟨_, rfl⟩, rfl⟩
    intro hspared
    have hnext := hspared.elim (·.sets.failsNext) (·.sets.failsNext)
    cases hfails.symm.trans hnext
  · exact ⟨_, hfollows (store.entries.insert key value), .inl ⟨rfl, rfl⟩⟩

theorem Reliable.set {store : Store} (h : store.Reliable) (key value : Bytes) :
    (store.set key value).2.Reliable := by
  obtain ⟨after, hfollows, ⟨hset, -⟩ | ⟨-, ⟨fault, hset⟩, -⟩⟩ := store.set_cases key value
  all_goals
    rw [hset]
    exact hfollows.reliable h

/-- Removing a key takes it out, or fails and changes nothing. -/
theorem remove_cases (store : Store) (key : Bytes) :
    ∃ after, store.Follows after ∧
      (store.remove key = (.ok (), after) ∧ after.entries = store.entries.erase key ∨
        ¬ store.Spared after ∧ (∃ fault, store.remove key = (.error fault, after)) ∧
          after.entries = store.entries) := by
  have hfollows (entries : OrderedMap Bytes Bytes) :
      store.Follows { store with entries := entries, removals := store.removals.advance 1 } := by
    constructor
    · intro h
      exact ⟨h.gets, h.sets, h.removals.advance 1, h.scans, h.ends⟩
    · intro h
      exact ⟨h.gets, h.sets, h.removals.of_advance, h.scans, h.ends⟩
  unfold remove
  dsimp only
  split
  · rename_i hfails
    refine ⟨_, hfollows store.entries, ?_⟩
    right
    refine ⟨?_, ⟨_, rfl⟩, rfl⟩
    intro hspared
    have hnext := hspared.elim (·.removals.failsNext) (·.removals.failsNext)
    cases hfails.symm.trans hnext
  · exact ⟨_, hfollows (store.entries.erase key), .inl ⟨rfl, rfl⟩⟩

/-- What a scan yields is an entry of the store or a failure. -/
theorem mem_yields {store : Store} {result : Except StoreFault (Bytes × Bytes)}
    (h : result ∈ store.yields) :
    (∃ entry ∈ store.entries.entries, result = .ok entry) ∨ ∃ fault, result = .error fault := by
  rcases List.mem_append.mp h with hentry | hend
  · obtain ⟨⟨entry, i⟩, hmem, rfl⟩ := List.mem_map.mp hentry
    dsimp only
    split
    · exact .inr ⟨_, rfl⟩
    · exact .inl ⟨entry, List.fst_mem_of_mem_zipIdx hmem, rfl⟩
  · split at hend
    · exact .inr ⟨_, List.mem_singleton.mp hend⟩
    · exact absurd hend List.not_mem_nil

/-- A scan yields only entries of the store. -/
theorem mem_entries_of_yields {store : Store} {entry : Bytes × Bytes}
    (h : .ok entry ∈ store.yields) : entry ∈ store.entries.entries := by
  rcases mem_yields h with ⟨other, hmem, heq⟩ | ⟨fault, hfault⟩
  · exact Except.ok.inj heq ▸ hmem
  · cases hfault

/-- A scan yields the entries in ascending order of their keys. -/
theorem pairwise_yields (store : Store) :
    store.yields.Pairwise fun x y ↦ ∀ a b, x = .ok a → y = .ok b → a.1 < b.1 := by
  have hkeys : (store.entries.entries.zipIdx.map Prod.fst).Pairwise (·.1 < ·.1) := by
    rw [List.zipIdx_map_fst]
    exact store.entries.ascending
  refine List.pairwise_append.mpr ⟨List.pairwise_map.mpr ?_, ?_, ?_⟩
  · apply (List.pairwise_map.mp hkeys).imp
    intro x y hlt a b ha hb
    dsimp only at ha hb
    split at ha
    · cases ha
    split at hb
    · cases hb
    obtain rfl := Except.ok.inj ha
    obtain rfl := Except.ok.inj hb
    exact hlt
  · split
    · exact List.pairwise_singleton _ _
    · exact .nil
  · -- The end is no entry, so it needs no place in the order.
    intro x _ y hy a b _ hb
    split at hy
    · cases (List.mem_singleton.mp hy).symm.trans hb
    · exact absurd hy List.not_mem_nil

/-- A scan of a reliable store yields all entries. -/
theorem yields_of_reliable {store : Store} (h : store.Reliable) :
    store.yields = store.entries.entries.map .ok := by
  have hyield (pair : (Bytes × Bytes) × Nat) :
      (if store.scans.fails (store.scans.made + pair.2) then
        Except.error (⟨store.keyspace, .scan⟩ : StoreFault) else .ok pair.1) = .ok pair.1 := by
    rw [h.scans _ (Nat.le_add_right _ _)]
    rfl
  calc
    store.yields = store.entries.entries.zipIdx.map (.ok ∘ Prod.fst) ++ [] := by
      rw [yields, h.ends.failsNext]
      exact congrArg (· ++ []) (List.map_congr_left fun pair _ ↦ hyield pair)
    _ = store.entries.entries.map .ok := by
      rw [List.append_nil, ← List.map_map, List.zipIdx_map_fst]

/-- Each entry is yielded, or a failure somewhere is. -/
theorem yields_entry_or_error {store : Store} {entry : Bytes × Bytes}
    (h : entry ∈ store.entries.entries) :
    .ok entry ∈ store.yields ∨ ∃ fault, .error fault ∈ store.yields := by
  obtain ⟨i, hi⟩ := List.mem_iff_getElem?.mp h
  have hmem : (entry, i) ∈ store.entries.entries.zipIdx := List.mk_mem_zipIdx_iff_getElem?.mpr hi
  have hyield := List.mem_map_of_mem (f := fun pair : (Bytes × Bytes) × Nat ↦
    if store.scans.fails (store.scans.made + pair.2) then
      Except.error (⟨store.keyspace, .scan⟩ : StoreFault) else .ok pair.1) hmem
  dsimp only at hyield
  split at hyield
  · exact .inr ⟨_, List.mem_append_left _ hyield⟩
  · exact .inl (List.mem_append_left _ hyield)

/-- Where no result is a failure, there are as many as entries. -/
theorem length_yields {store : Store} (h : ∀ fault, .error fault ∉ store.yields) :
    store.yields.length = store.size := by
  unfold yields at h ⊢
  split at h
  · exact absurd (List.mem_append_right _ (List.mem_singleton_self _)) (h _)
  · rename_i hend
    rw [if_neg hend, List.append_nil, List.length_map, List.length_zipIdx]
    rfl

end Store

/-- Everything is gathered just when there is no error. -/
theorem gather_eq_ok_iff {ε α : Type} {results : List (Except ε α)} {values : List α} :
    (gather results).1 = .ok values ↔ results = values.map .ok := by
  induction results generalizing values with
  | nil => simp [gather, eq_comm]
  | cons result rest ih =>
    cases result with
    | error e => cases values <;> simp [gather]
    | ok a =>
      rw [gather]
      cases values with
      | nil => obtain ⟨_ | _, _⟩ := gather rest <;> simp [Except.map]
      | cons b values =>
        rw [List.map_cons, List.cons.injEq, Except.ok.injEq, ← ih]
        obtain ⟨_ | _, _⟩ := gather rest <;> simp [Except.map]

/-- Gathering fails just when there is an error. -/
theorem gather_eq_error_iff {ε α : Type} {results : List (Except ε α)} :
    (∃ e, (gather results).1 = .error e) ↔ ∃ e, .error e ∈ results := by
  induction results with
  | nil => simp [gather]
  | cons result rest ih =>
    cases result with
    | error e => simp [gather]
    | ok a =>
      rw [gather]
      simp only [List.mem_cons, reduceCtorEq, false_or, ← ih]
      obtain ⟨_ | _, _⟩ := gather rest <;> simp [Except.map]

theorem Store.count_of_reliable {store : Store} (h : store.Reliable) :
    store.count.1 = .ok store.size := by
  have hgather : (gather store.yields).1 = .ok store.entries.entries :=
    gather_eq_ok_iff.mpr (yields_of_reliable h)
  exact congrArg (Except.map List.length) hgather

end PathStore
