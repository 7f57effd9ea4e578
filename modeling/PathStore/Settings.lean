import PathStore.Json.Record

/-!
# Settings

How a database keeps its data, and how the server around it runs.  Settings are read and written as
records.
-/

namespace PathStore

/-- When a write is acknowledged. -/
inductive Durability where
  /-- When it has reached stable storage. -/
  | synced
  /-- As soon as it is buffered. -/
  | buffered
deriving Repr, DecidableEq

namespace Durability

def name : Durability → String
  | .synced => "Sync"
  | .buffered => "Buffered"

def ofDurable (durable : Bool) : Durability :=
  if durable then .synced else .buffered

end Durability

structure StoreSettings where
  directory : String
  durableWrites : Bool
  /-- How many locks guard the entries of the index. -/
  lockStripes : Nat
  /-- Whether hits of the index are matched against queries without ranges too. -/
  verifiesHits : Bool
deriving Repr, DecidableEq

namespace StoreSettings

def ofDirectory (directory : String) : StoreSettings :=
  ⟨directory, true, 64, true⟩

def standard : StoreSettings :=
  ofDirectory "./docdb.data"

def withDurableWrites (durable : Bool) (settings : StoreSettings) : StoreSettings :=
  { settings with durableWrites := durable }

/-- There is always at least one lock. -/
def withLockStripes (stripes : Nat) (settings : StoreSettings) : StoreSettings :=
  { settings with lockStripes := max stripes 1 }

def withVerifiedHits (verify : Bool) (settings : StoreSettings) : StoreSettings :=
  { settings with verifiesHits := verify }

def durability (settings : StoreSettings) : Durability :=
  .ofDurable settings.durableWrites

def format : Json.RecordFormat StoreSettings where
  name := "StoreConfig"
  blank := standard
  fields :=
    [.required "data_dir" .filePath (·.directory) fun value s ↦ { s with directory := value },
      .required "durable_writes" .boolean (·.durableWrites) withDurableWrites,
      .required "index_lock_stripes" (.natural "usize") (·.lockStripes)
        fun value s ↦ { s with lockStripes := value },
      .required "verify_index_hits" .boolean (·.verifiesHits) withVerifiedHits]

end StoreSettings

structure ServerSettings where
  address : String
  /-- Whether the index is rebuilt before the first request. -/
  reindexes : Bool
deriving Repr, DecidableEq

namespace ServerSettings

def ofHost (host : String) (port : Nat) : ServerSettings :=
  ⟨s!"{host}:{port}", true⟩

def withReindexing (reindexes : Bool) (settings : ServerSettings) : ServerSettings :=
  { settings with reindexes := reindexes }

def format : Json.RecordFormat ServerSettings where
  name := "ServerConfig"
  blank := ofHost "0.0.0.0" 8080
  fields :=
    [.required "bind_addr" .string (·.address) fun value s ↦ { s with address := value },
      .required "reindex_on_startup" .boolean (·.reindexes) withReindexing]

end ServerSettings

end PathStore
