import Mathlib.Algebra.Ring.Nat
import PathStore.Proofs.Index.Entered

/-!
# Writers that take turns

Several callers put their ids into the entries of their documents at the same time, and between two
steps of one caller any steps of the others can come.  Whatever the order, the pairs that have been
entered and those still to come are the pairs of the documents, and the callers have counted the new
ones among the entered.  So neither the bytes of the index nor the sum of the counts depends on how
the steps were mixed.  That the step at one entry is in one piece is an assumption here.
-/

namespace PathStore

/-- A call that puts an id into the entries of a document, and may have got to any place. -/
structure Writer where
  id : String
  /-- The path-values it still has to go through. -/
  rest : List String
  /-- How many entries have changed so far, or the failure that has ended the call. -/
  result : Except Error Nat

namespace Writer

def start (id : String) (document : Document) : Writer :=
  ⟨id, document.pathValues.toList, .ok 0⟩

/-- The step at the next path-value.  A call that has come to its end does nothing. -/
def step (index : Store) (writer : Writer) : Writer × Store :=
  match writer.rest with
  | [] => (writer, index)
  | pathValue :: rest =>
    match Store.mergeId writer.id index pathValue with
    | (.error error, index) => ({ writer with rest := [], result := .error error }, index)
    | (.ok changed, index) =>
      ({ writer with rest, result := writer.result.map (· + if changed then 1 else 0) }, index)

/-- The pairs it still has to enter. -/
def pending (writer : Writer) : IndexRelation :=
  pairsOf writer.id writer.rest

theorem length_rest_step (index : Store) (writer : Writer) :
    (writer.step index).1.rest.length ≤ writer.rest.length - 1 := by
  unfold step
  split
  · rename_i hrest
    simp [hrest]
  · rename_i pathValue rest hrest
    rw [hrest]
    split
    · exact Nat.zero_le _
    · exact Nat.le_refl _

end Writer

/-- An index and the calls that are writing to it. -/
structure Writing where
  index : Store
  writers : List Writer

namespace Writing

def start (index : Store) (documents : List (String × Document)) : Writing :=
  ⟨index, documents.map fun pair ↦ .start pair.1 pair.2⟩

/-- The next step of one of the calls. -/
def turn (state : Writing) (i : Nat) : Writing :=
  match state.writers[i]? with
  | none => state
  | some writer =>
    let (writer, index) := writer.step state.index
    ⟨index, state.writers.set i writer⟩

def run (state : Writing) (turns : List Nat) : Writing :=
  turns.foldl turn state

def Completes (turns : List Nat) (documents : List (String × Document)) : Prop :=
  ∀ i pair, documents[i]? = some pair → pair.2.pathValues.size ≤ turns.count i

/-- One of the calls that has not come to its end still has to enter the pair. -/
def IsPending (state : Writing) (pair : String × String) : Prop :=
  ∃ writer ∈ state.writers, pair ∈ writer.pending

section turns

variable (state : Writing) (i j : Nat)

/-- A turn is the step of one writer, or it is nobody's. -/
theorem turn_cases :
    state.turn i = state ∨ ∃ earlier writer later, state.writers = earlier ++ writer :: later ∧
      state.turn i = ⟨(writer.step state.index).2,
        earlier ++ (writer.step state.index).1 :: later⟩ := by
  unfold turn
  cases hwriter : state.writers[i]? with
  | none => exact .inl rfl
  | some writer =>
    obtain ⟨hlt, heq⟩ := List.getElem?_eq_some_iff.mp hwriter
    right
    refine ⟨state.writers.take i, writer, state.writers.drop (i + 1), ?_, ?_⟩
    · rw [← heq, List.cons_getElem_drop_succ, List.take_append_drop]
    · dsimp only
      rw [List.set_eq_take_append_cons_drop, if_pos hlt]

theorem getElem?_turn : (state.turn i).writers[j]? = state.writers[j]?.map fun writer ↦
    if i = j then (writer.step state.index).1 else writer := by
  unfold turn
  cases hwriter : state.writers[i]? with
  | none =>
    by_cases hij : i = j
    · simp [← hij, hwriter]
    · simp [hij]
  | some writer =>
    obtain ⟨hlt, rfl⟩ := List.getElem?_eq_some_iff.mp hwriter
    by_cases hij : i = j
    · simp [← hij, hlt]
    · simp [hij, List.getElem?_set_ne]

/-- A call that has been given enough steps has come to its end. -/
theorem length_rest_run {state : Writing} {writer : Writer} (turns : List Nat)
    (h : (state.run turns).writers[j]? = some writer) :
    ∃ before, state.writers[j]? = some before ∧
      writer.rest.length ≤ before.rest.length - turns.count j := by
  induction turns generalizing state with
  | nil => exact ⟨writer, h, Nat.le_refl _⟩
  | cons i turns ih =>
    obtain ⟨next, hnext, hlength⟩ := ih h
    rw [getElem?_turn, Option.map_eq_some_iff] at hnext
    obtain ⟨before, hbefore, rfl⟩ := hnext
    refine ⟨before, hbefore, ?_⟩
    have hstep := before.length_rest_step state.index
    by_cases hij : i = j
    · subst hij
      simp only [if_pos, List.count_cons_self] at hlength ⊢
      omega
    · simpa [hij] using hlength

end turns

section alone

variable (index : Store) (id : String)

theorem turn_single (writer : Writer) :
    turn ⟨index, [writer]⟩ 0 = ⟨(writer.step index).2, [(writer.step index).1]⟩ :=
  rfl

theorem run_ended (result : Except Error Nat) (steps : Nat) :
    run ⟨index, [⟨id, [], result⟩]⟩ (.replicate steps 0) = ⟨index, [⟨id, [], result⟩]⟩ := by
  induction steps with
  | zero => rfl
  | succ steps ih => exact ih

/-- A writer that is alone does what a call in one piece does. -/
theorem run_alone (count : Nat) {rest : List String} {steps : Nat} (hsteps : rest.length ≤ steps) :
    run ⟨index, [⟨id, rest, .ok count⟩]⟩ (.replicate steps 0) =
      ⟨(index.updateEntries (Store.mergeId id) rest).2,
        [⟨id, [], (index.updateEntries (Store.mergeId id) rest).1.map (count + ·)⟩]⟩ := by
  induction rest generalizing index count steps with
  | nil => exact run_ended index id (.ok count) steps
  | cons pathValue rest ih =>
    obtain ⟨steps, rfl⟩ := Nat.exists_eq_add_of_le' (Nat.lt_of_lt_of_le (Nat.succ_pos _) hsteps)
    rw [List.replicate_succ, run, List.foldl_cons, ← run, turn_single, Writer.step,
      Store.updateEntries]
    dsimp only
    rcases Store.mergeId id index pathValue with ⟨_ | changed, after⟩
    · exact run_ended after id _ steps
    · refine (ih after (count + if changed then 1 else 0) (Nat.le_of_succ_le_succ hsteps)).trans ?_
      dsimp only
      rcases after.updateEntries (Store.mergeId id) rest with ⟨_ | more, _⟩
      · rfl
      · simp [Except.map, Nat.add_comm, Nat.add_left_comm]

/-- A single call that is given enough steps is the call that puts the document in. -/
theorem run_start_alone (document : Document) {steps : Nat}
    (hsteps : document.pathValues.size ≤ steps) :
    run (start index [(id, document)]) (.replicate steps 0) =
      ⟨(index.addToIndex id document).2, [⟨id, [], (index.addToIndex id document).1⟩]⟩ := by
  refine (run_alone index id 0 hsteps).trans ?_
  simp only [Nat.zero_add, Store.addToIndex]
  rcases index.updateEntries (Store.mergeId id) document.pathValues.toList with ⟨_ | _, _⟩ <;> rfl

end alone

end Writing

namespace Store

/-- The entry of the path-value holds the id. -/
def lists (index : Store) (pair : String × String) : Bool :=
  match index.idsAt pair.1 with
  | .ok ids => pair.2 ∈ ids
  | .error _ => false

def newPairs (index : Store) (relation : IndexRelation) : IndexRelation :=
  relation.filter (!index.lists ·)

theorem lists_of_ok {index : Store} {pathValue id : String} {ids : IdSet}
    (hids : index.idsAt pathValue = .ok ids) : index.lists (pathValue, id) = (id ∈ ids : Bool) := by
  simp [lists, hids]

theorem card_newPairs_insert (index : Store) (pair : String × String) (relation : IndexRelation) :
    (index.newPairs (insert pair relation)).card = (index.newPairs relation).card +
      if pair ∉ relation ∧ index.lists pair = false then 1 else 0 := by
  by_cases hmem : pair ∈ relation
  · simp [hmem]
  · cases hlists : index.lists pair with
    | true => simp [newPairs, Finset.filter_insert, hlists]
    | false => simp [newPairs, Finset.filter_insert, hlists, hmem]

/-- The index after the documents have been put in one after the other. -/
def addAll (index : Store) (documents : List (String × Document)) : Store :=
  documents.foldl (fun index pair ↦ (index.addToIndex pair.1 pair.2).2) index

/-- The entries of all these pairs can be read. -/
def CanRead (index : Store) (relation : IndexRelation) : Prop :=
  ∀ pair ∈ relation, ∃ ids, index.idsAt pair.1 = .ok ids

/-- Calls in one piece, one after the other, enter the pairs of their documents. -/
theorem addAll_entered {index : Store} {documents : List (String × Document)}
    (hreliable : index.Reliable) (hfits : index.FitsAlso (relationOf documents))
    (hread : index.CanRead (relationOf documents)) :
    (index.addAll documents).Reliable ∧
      Entered (relationOf documents) index (index.addAll documents) := by
  induction documents using List.reverseRecOn with
  | nil => exact ⟨hreliable, entered_empty rfl⟩
  | append_singleton documents pair ih =>
    rcases pair with ⟨id, document⟩
    have hrelation := relationOf_append documents [(id, document)]
    have hsub : relationOf documents ⊆ relationOf (documents ++ [(id, document)]) :=
      hrelation ▸ Finset.subset_union_left
    obtain ⟨hreliable', hentered⟩ :=
      ih (hfits.mono hsub) fun pair hpair ↦ hread pair (hsub hpair)
    rw [addAll, List.foldl_concat, ← addAll]
    obtain ⟨done, result, after, hadd, hafter, hentered', ⟨-, rfl, -⟩ | ⟨-, -, hbad⟩⟩ :=
      hreliable'.addToIndex_entered id document
    · rw [hadd, hrelation, relationOf_singleton]
      exact ⟨hafter, hentered.union hentered' (hfits.mono hsub)⟩
    · obtain ⟨pathValue, hmem, fault, hfault⟩ := hbad
      rw [hentered.idsAt_eq_error_iff (hfits.mono hsub)] at hfault
      obtain ⟨ids, hids⟩ := hread (pathValue, id)
        (mem_relationOf.mpr ⟨document, by simp, hmem⟩)
      cases hids.symm.trans hfault

end Store

/-! ## Any order -/

namespace Writing

/-- Some pairs have been entered and counted, and together with those that the calls still have to
enter they are the pairs of the documents.  No call has failed. -/
structure UnderWay (index : Store) (documents : List (String × Document)) (state : Writing)
    (done : IndexRelation) : Prop where
  entered : index.Entered done state.index
  reliable : state.index.Reliable
  pair : ∀ pair, pair ∈ relationOf documents ↔ pair ∈ done ∨ state.IsPending pair
  counted : ∃ counts : List Nat, state.writers.map Writer.result = counts.map .ok ∧
    counts.sum = (index.newPairs done).card

section orders

variable {index : Store} {documents : List (String × Document)} {state : Writing}
  {done : IndexRelation}

/-- At the start nothing has been entered and all pairs are still to come. -/
theorem underWay_start (hreliable : index.Reliable) (documents : List (String × Document)) :
    UnderWay index documents (start index documents) ∅ where
  entered := Store.entered_empty rfl
  reliable := hreliable
  pair := by
    rintro ⟨pathValue, id⟩
    simp [mem_relationOf, IsPending, start, Writer.pending, mem_pairsOf, Writer.start]
  counted := ⟨documents.map fun _ ↦ 0, by simp [start, Writer.start, Function.comp_def],
    by simp [Store.newPairs]⟩

/-- A pair is pending in the writer whose turn it is or in another one. -/
theorem isPending_iff {earlier later : List Writer} {writer : Writer}
    (h : state.writers = earlier ++ writer :: later) (pair : String × String) :
    state.IsPending pair ↔
      pair ∈ writer.pending ∨ ∃ other ∈ earlier ++ later, pair ∈ other.pending := by
  simp only [IsPending, h, List.mem_append, List.mem_cons]
  grind

/-- If all calls have counted and one of them counts on, all have counted again. -/
theorem exists_counts {earlier later : List Writer} {writer after : Writer} {counts : List Nat}
    {more : Nat} (h : (earlier ++ writer :: later).map Writer.result = counts.map .ok)
    (hafter : after.result = writer.result.map (· + more)) :
    ∃ others : List Nat, (earlier ++ after :: later).map Writer.result = others.map .ok ∧
      others.sum = counts.sum + more := by
  rw [List.map_append, List.map_cons] at h
  obtain ⟨first, others, rfl, hfirst, hothers⟩ := List.map_eq_append_iff.mp h.symm
  obtain ⟨count, last, rfl, hcount, hlast⟩ := List.map_eq_cons_iff.mp hothers
  refine ⟨first ++ (count + more) :: last, ?_, ?_⟩
  · simp [hfirst, hlast, hafter, ← hcount, Except.map]
  · simp only [List.sum_append, List.sum_cons]
    omega

/-- A step of any writer moves at most one pair from those to come to those entered. -/
theorem UnderWay.turn (h : UnderWay index documents state done) (i : Nat)
    (hfits : index.FitsAlso (relationOf documents)) (hread : index.CanRead (relationOf documents)) :
    ∃ more, UnderWay index documents (state.turn i) more := by
  rcases state.turn_cases i with hsame | ⟨earlier, writer, later, hwriters, hturn⟩
  · exact ⟨done, hsame.symm ▸ h⟩
  rcases writer with ⟨id, _ | ⟨pathValue, rest⟩, result⟩
  -- The call has come to its end before.
  · refine ⟨done, ?_⟩
    rw [hturn]
    dsimp only [Writer.step]
    rw [← hwriters]
    exact h
  · have hpending := isPending_iff hwriters
    simp only [Writer.pending, pairsOf_cons, Finset.mem_insert] at hpending
    have hmem : (pathValue, id) ∈ relationOf documents :=
      (h.pair _).mpr (.inr ((hpending _).mpr (.inl (.inl rfl))))
    have hsub : done ⊆ relationOf documents := by
      intro pair hpair
      exact (h.pair pair).mpr (.inl hpair)
    obtain ⟨ids, hids⟩ := hread _ hmem
    have hnow := h.entered.idsAt_eq (hfits.mono hsub) hids
    obtain ⟨after, hmerge, hreliable, hentered⟩ := h.reliable.mergeId_entered hnow id
    rw [hturn]
    dsimp only [Writer.step]
    rw [hmerge]
    refine ⟨insert (pathValue, id) done, ?_, hreliable, ?_, ?_⟩
    · rw [Finset.insert_eq, Finset.union_comm]
      exact h.entered.union hentered (hfits.mono hsub)
    · intro pair
      rw [h.pair, hpending, isPending_iff rfl, Finset.mem_insert, Writer.pending]
      simp only [or_assoc, or_left_comm, Writer.pending]
    · obtain ⟨counts, hresults, hsum⟩ := h.counted
      rw [hwriters] at hresults
      -- The id was not in the entry exactly if the pair is new and had not been entered before.
      rw [index.card_newPairs_insert, ← hsum, Store.lists_of_ok hids]
      refine exists_counts hresults (congrArg (Except.map · result) ?_)
      simp [and_comm]

/-- After any steps, what has been entered and what is still to come are the pairs of the
documents. -/
theorem UnderWay.run (h : UnderWay index documents state done) (turns : List Nat)
    (hfits : index.FitsAlso (relationOf documents)) (hread : index.CanRead (relationOf documents)) :
    ∃ more, UnderWay index documents (state.run turns) more := by
  induction turns generalizing state done with
  | nil => exact ⟨done, h⟩
  | cons i turns ih =>
    obtain ⟨more, hmore⟩ := h.turn i hfits hread
    exact ih hmore

/-- When all calls have come to their ends, all pairs of the documents have been entered. -/
theorem UnderWay.eq_relationOf (h : UnderWay index documents state done)
    (hended : ∀ writer ∈ state.writers, writer.rest = []) : done = relationOf documents := by
  ext pair
  rw [h.pair]
  refine (or_iff_left ?_).symm
  rintro ⟨writer, hwriter, hpair⟩
  rw [Writer.pending, hended writer hwriter] at hpair
  exact absurd hpair (Finset.notMem_empty pair)

/-- With enough steps for each, all writers come to their end. -/
theorem Completes.rest_eq_nil {turns : List Nat} (h : Completes turns documents) :
    ∀ writer ∈ ((start index documents).run turns).writers, writer.rest = [] := by
  intro writer hwriter
  obtain ⟨i, hi⟩ := List.mem_iff_getElem?.mp hwriter
  obtain ⟨before, hbefore, hlength⟩ := length_rest_run i turns hi
  obtain ⟨pair, hpair, rfl⟩ := Option.map_eq_some_iff.mp ((List.getElem?_map ..).symm.trans hbefore)
  have hsteps := h i pair hpair
  apply List.length_eq_zero_iff.mp
  exact Nat.le_zero.mp (hlength.trans (Nat.sub_eq_zero_of_le hsteps).le)

/-- The calls have come to what they come to one after the other.  Each has returned a count, and in
sum they have counted the pairs that are new to the index.  Every set in the index holds the ids it
held before and those of the documents with its path-value, and its bytes do not depend on the order
of the steps. -/
structure Serialized (index : Store) (documents : List (String × Document)) (state : Writing) :
    Prop where
  ended : ∀ writer ∈ state.writers, writer.rest = []
  counted : ∃ counts : List Nat, state.writers.map Writer.result = counts.map .ok ∧
    counts.sum = (index.newPairs (relationOf documents)).card
  entry : ∀ pathValue ids, index.idsAt pathValue = .ok ids →
    ∃ others, state.index.idsAt pathValue = .ok others ∧ ∀ id, id ∈ others ↔
      id ∈ ids ∨ ∃ document, (id, document) ∈ documents ∧ pathValue ∈ document.pathValues
  other : ∀ key, (∀ pair ∈ documents, key ∉ pair.2.pathValues.toList.map Utf8.encode) →
    state.index.entries.get? key = index.entries.get? key
  entries : state.index.entries = (index.addAll documents).entries

/-- Whatever the order of the steps, writers that come to their end leave the bytes that calls one
after the other leave, and together they count the new pairs. -/
theorem run_serialized (hreliable : index.Reliable)
    (hread : ∀ pathValue, ∃ ids, index.idsAt pathValue = .ok ids)
    (hroom : index.Accommodates documents) {turns : List Nat} (hturns : Completes turns documents) :
    Serialized index documents ((start index documents).run turns) := by
  have hfits := hroom.fitsAlso
  have hcan : index.CanRead (relationOf documents) := by
    intro pair _
    exact hread pair.1
  obtain ⟨done, hrun⟩ := (underWay_start hreliable documents).run turns hfits hcan
  obtain rfl := hrun.eq_relationOf hturns.rest_eq_nil
  refine ⟨hturns.rest_eq_nil, hrun.counted, ?_, ?_, ?_⟩
  · intro pathValue ids hids
    refine ⟨_, hrun.entered.idsAt_eq hfits hids, ?_⟩
    intro id
    rw [IdSet.mem_insertAll, Store.mem_idsFor_encode, mem_relationOf]
  · intro key hkey
    rw [hrun.entered key, Store.idsFor_eq_nil, Store.changedEntry_nil]
    rintro ⟨pathValue, id⟩ hpair rfl
    obtain ⟨document, hdocument, hmem⟩ := mem_relationOf.mp hpair
    exact hkey _ hdocument (List.mem_map_of_mem hmem)
  · exact hrun.entered.entries_eq (Store.addAll_entered hreliable hfits hcan).2

end orders

/-- An index whose only entry has a byte behind its set. -/
def frayedIndex : Store :=
  ((Store.empty .index).set (Utf8.encode "y=null")
    (IdSet.encode (OrderedSet.ofList ["b"]) ++ [0])).2

def crossing : List (String × Document) :=
  [("a", [("x", .bool true), ("y", .null)]), ("b", [("x", .bool true), ("y", .null)]),
    ("a", [("y", .null)])]

theorem idsAt_frayedIndex (pathValue : String) :
    frayedIndex.idsAt pathValue = .ok .empty ∨
      frayedIndex.idsAt pathValue = .ok (OrderedSet.ofList ["b"]) := by
  have hentry : frayedIndex.entries.get? (Utf8.encode pathValue) =
      if Utf8.encode "y=null" = Utf8.encode pathValue
      then some (IdSet.encode (OrderedSet.ofList ["b"]) ++ [0]) else none :=
    OrderedMap.get?_insert ..
  rw [Store.idsAt, hentry]
  split
  · rename_i hbytes
    split at hbytes
    · obtain rfl := Option.some.inj hbytes
      exact .inr rfl
    · cases hbytes
  · exact .inl rfl

theorem run_serialized_crossing :
    Serialized frayedIndex crossing ((start frayedIndex crossing).run [1, 0, 2, 1, 0]) ∧
      Serialized frayedIndex crossing ((start frayedIndex crossing).run [0, 0, 2, 1, 1]) := by
  have hreliable : frayedIndex.Reliable := (Store.reliable_empty _).set _ _
  have hread (pathValue : String) : ∃ ids, frayedIndex.idsAt pathValue = .ok ids :=
    (idsAt_frayedIndex pathValue).elim (⟨_, ·⟩) (⟨_, ·⟩)
  have hroom : frayedIndex.Accommodates crossing := by
    constructor
    · intro pathValue ids h
      rcases idsAt_frayedIndex pathValue with hids | hids
      all_goals
        obtain rfl := Except.ok.inj (hids.symm.trans h)
        decide
    · decide
  have hturns {turns : List Nat} (h : turns.Perm [0, 0, 1, 1, 2]) : Completes turns crossing := by
    intro i pair hpair
    rw [h.count_eq]
    match i with
    | 0 | 1 | 2 => obtain rfl := Option.some.inj hpair; decide
    | i + 3 => cases hpair
  exact ⟨run_serialized hreliable hread hroom (hturns (by decide)),
    run_serialized hreliable hread hroom (hturns (by decide))⟩

end Writing

end PathStore
