import PathStore.Api.Service

/-!
# Command line

A server for one database in memory.  Every line of the standard input is a request: its method, its
target and its body, with one space between them.  The status and the body of the response are
printed.  With the argument `--trust-index`, hits of the index are not matched against queries
without ranges.
-/

namespace PathStore

def Request.ofLine (line : String) : Request :=
  let (method, rest) := splitWord line.toList
  let (target, body) := splitWord rest
  ⟨.ofName (String.ofList method), Utf8.encodeChars target, Utf8.encodeChars body⟩
where
  /-- The characters before and behind the first space. -/
  splitWord (text : List Char) : List Char × List Char :=
    let word := text.takeWhile (· ≠ ' ')
    (word, text.drop (word.length + 1))

/-- The id made of sixteen random bytes. -/
def documentId (random : Bytes) : String :=
  let digits := random.flatMap fun b ↦ Hex.fixed 2 b.toNat
  let group (start count : Nat) : String := String.ofList ((digits.drop start).take count)
  "-".intercalate [group 0 8, group 8 4, group 12 4, group 16 4, group 20 12]

def randomBytes : IO Bytes := do
  let bytes ← IO.getRandomBytes 16
  return bytes.toList.zipIdx.map fun (b, i) ↦
    if i = 6 then b % 0x10 + 0x40 else if i = 8 then b % 0x40 + 0x80 else b

/-- Answers a request and measures how long that takes; what it took is then put on record. -/
def timedResponse (request : Request) (id : String) (db : Database) : IO (Response × Database) := do
  let start ← IO.monoNanosNow
  let (response, _) := db.respond request id ⟨0⟩
  IO.println response.status
  let stop ← IO.monoNanosNow
  return db.respond request id ⟨stop - start⟩

/-- Answers requests until the input ends. -/
partial def serve (input : IO.FS.Stream) (db : Database) : IO Unit := do
  let line ← input.getLine
  unless line.isEmpty do
    let request := Request.ofLine (line.dropEndWhile (· = '\n')).toString
    let (response, db) ← timedResponse request (documentId (← randomBytes)) db
    IO.println response.body
    serve input db

end PathStore

def main (arguments : List String) : IO Unit := do
  PathStore.serve (← IO.getStdin) (.empty (!arguments.contains "--trust-index"))
