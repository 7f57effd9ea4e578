import PathStore.Ordered.Map
import PathStore.Text.Utf8

/-!
# Stores

A store maps byte strings to byte strings and is scanned in the order of its keys.  Any call of a
store may fail, and one that fails leaves the entries as they are.  Which calls fail is part of the
store: for each kind of call a schedule tells it of every call by number.  A scan is called once for
each entry that it yields, and once more for its end, where it may fail too.  An operation on a
store returns its result and the store afterwards, also when it fails.
-/

namespace PathStore

inductive Keyspace where
  | documents
  | index
deriving Repr, DecidableEq

def Keyspace.name : Keyspace → String
  | .documents => "docs"
  | .index => "path_index"

/-- The kinds of call; a scan calls for each entry and for its end. -/
inductive StoreCall where
  | get
  | set
  | remove
  | scan
  | scanEnd
deriving Repr, DecidableEq

def StoreCall.name : StoreCall → String
  | .get => "get"
  | .set => "set"
  | .remove => "remove"
  | .scan | .scanEnd => "scan"

structure StoreFault where
  keyspace : Keyspace
  call : StoreCall
deriving Repr, DecidableEq

def StoreFault.message (fault : StoreFault) : String :=
  s!"{fault.keyspace.name} {fault.call.name} failed"

/-- Which calls of a kind fail. -/
structure Schedule where
  /-- Whether the call that so many calls precede fails. -/
  fails : Nat → Bool
  /-- How many calls have been made. -/
  made : Nat

namespace Schedule

def reliable : Schedule :=
  ⟨fun _ ↦ false, 0⟩

def failingAfter (count : Nat) : Schedule :=
  ⟨fun made ↦ count ≤ made, 0⟩

def failsNext (schedule : Schedule) : Bool :=
  schedule.fails schedule.made

def advance (count : Nat) (schedule : Schedule) : Schedule :=
  { schedule with made := schedule.made + count }

end Schedule

/-- Entries and the schedules of the calls on them. -/
structure Store where
  keyspace : Keyspace
  entries : OrderedMap Bytes Bytes
  gets : Schedule
  sets : Schedule
  removals : Schedule
  scans : Schedule
  ends : Schedule

namespace Store

def empty (keyspace : Keyspace) : Store :=
  ⟨keyspace, .empty, .reliable, .reliable, .reliable, .reliable, .reliable⟩

def size (store : Store) : Nat :=
  store.entries.size

def get (store : Store) (key : Bytes) : Except StoreFault (Option Bytes) × Store :=
  let after := { store with gets := store.gets.advance 1 }
  if store.gets.failsNext then (.error ⟨store.keyspace, .get⟩, after)
  else (.ok (store.entries.get? key), after)

def set (store : Store) (key value : Bytes) : Except StoreFault Unit × Store :=
  let after := { store with sets := store.sets.advance 1 }
  if store.sets.failsNext then (.error ⟨store.keyspace, .set⟩, after)
  else (.ok (), { after with entries := store.entries.insert key value })

def remove (store : Store) (key : Bytes) : Except StoreFault Unit × Store :=
  let after := { store with removals := store.removals.advance 1 }
  if store.removals.failsNext then (.error ⟨store.keyspace, .remove⟩, after)
  else (.ok (), { after with entries := store.entries.erase key })

/-- What a scan yields: every entry in key order, or the failure in its place, and at the end
nothing more or a failure. -/
def yields (store : Store) : List (Except StoreFault (Bytes × Bytes)) :=
  let entries := store.entries.entries.zipIdx.map fun (entry, i) ↦
    if store.scans.fails (store.scans.made + i) then .error ⟨store.keyspace, .scan⟩ else .ok entry
  entries ++ if store.ends.failsNext then [.error ⟨store.keyspace, .scanEnd⟩] else []

/-- The store after a scan of which so much has been looked at, the end counted like an entry. -/
def scanned (looked : Nat) (store : Store) : Store :=
  { store with
    scans := store.scans.advance (min looked store.size)
    ends := store.ends.advance (looked - store.size) }

end Store

/-- The values up to the first error, which wins over them; and how many results were looked at, the
end counted like one. -/
def gather {ε α : Type} : List (Except ε α) → Except ε (List α) × Nat
  | [] => (.ok [], 1)
  | .error e :: _ => (.error e, 1)
  | .ok a :: rest =>
    let (values, count) := gather rest
    (values.map (a :: ·), count + 1)

/-- The number of entries, found by a scan. -/
def Store.count (store : Store) : Except StoreFault Nat × Store :=
  let (entries, looked) := gather store.yields
  (entries.map List.length, store.scanned looked)

end PathStore
