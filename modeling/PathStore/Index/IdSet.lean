import PathStore.Ordered.Set
import PathStore.Text.Utf8

/-!
# Sets of ids and their stored form

The stored form of a set of document ids is the one that the encoding library bincode gives it: the
number of ids and then, in ascending order, the length and the bytes of each, where numbers have
eight bytes, the lowest first.  Reading follows that library too and is more generous than writing:
the ids may come in any order and more than once, and bytes behind the last one are ignored.
-/

namespace PathStore

abbrev IdSet := OrderedSet String

inductive IdSetFault where
  /-- The bytes end inside a number. -/
  | numberCutOff
  /-- The bytes end inside an id. -/
  | idCutOff
  | notText (fault : Utf8.Fault)
deriving Repr, DecidableEq

def IdSetFault.message : IdSetFault → String
  | .numberCutOff => "io error: unexpected end of file"
  | .idCutOff => "io error: "
  | .notText fault => "string is not valid utf8: " ++ fault.message

/-- The lowest `count` bytes of a number, the lowest first. -/
def littleEndian : Nat → Nat → Bytes
  | 0, _ => []
  | count + 1, n => UInt8.ofNat n :: littleEndian count (n / 256)

/-- The number that bytes form, the lowest first. -/
def ofLittleEndian : Bytes → Nat
  | [] => 0
  | b :: rest => b.toNat + 256 * ofLittleEndian rest

def numberWidth : Nat := 8

def readNumber (bytes : Bytes) : Except IdSetFault (Nat × Bytes) :=
  if bytes.length < numberWidth then .error .numberCutOff
  else .ok (ofLittleEndian (bytes.take numberWidth), bytes.drop numberWidth)

namespace IdSet

def encodeId (id : String) : Bytes :=
  let bytes := Utf8.encode id
  littleEndian numberWidth bytes.length ++ bytes

def encode (ids : IdSet) : Bytes :=
  littleEndian numberWidth ids.size ++ ids.toList.flatMap encodeId

def readId (bytes : Bytes) : Except IdSetFault (String × Bytes) := do
  let (length, rest) ← readNumber bytes
  if rest.length < length then .error .idCutOff
  else
    match Utf8.decode (rest.take length) with
    | .ok id => .ok (id, rest.drop length)
    | .error fault => .error (.notText fault)

def readIds : Nat → IdSet → Bytes → Except IdSetFault IdSet
  | 0, ids, _ => .ok ids
  | count + 1, ids, bytes =>
    match readId bytes with
    | .ok (id, rest) => readIds count (ids.insert id) rest
    | .error fault => .error fault

/-- The set whose stored form the bytes begin with. -/
def decode (bytes : Bytes) : Except IdSetFault IdSet := do
  let (count, rest) ← readNumber bytes
  readIds count .empty rest

example : encode (OrderedSet.ofList ["b", "é"]) =
    [2, 0, 0, 0, 0, 0, 0, 0, 1, 0, 0, 0, 0, 0, 0, 0, 0x62,
      2, 0, 0, 0, 0, 0, 0, 0, 0xC3, 0xA9] := by decide

example : decode [1, 0, 0, 0, 0, 0, 0, 0, 9, 0, 0, 0, 0, 0, 0, 0, 0x62] = .error .idCutOff := rfl

end IdSet

end PathStore
