import PathStore.Json.Skipped
import PathStore.Ordered.Set

/-!
# Values of given types

Where a value of one type is due, anything else is refused with a message that names what was found
and what was expected.  Strings and natural numbers go by several names in messages, so the name is
an argument.  A codec is a way to read values of a type together with the way to write them.
-/

namespace PathStore.Json

def booleanValue : Reader Bool :=
  expecting "a boolean" (fun b ↦ b = 't'.toUInt8 || b = 'f'.toUInt8) fun rest ↦ do
    if rest.head? = some 't'.toUInt8 then .ok (true, ← literal ['r', 'u', 'e'] (rest.drop 1))
    else .ok (false, ← literal ['a', 'l', 's', 'e'] (rest.drop 1))

/-- A natural number that fits in 64 bits, under the name that the message gives to it. -/
def naturalNamed (expected : String) : Reader Nat :=
  expecting expected (fun b ↦ b = '-'.toUInt8 || isDigit b) fun rest ↦ do
    let negative := rest.head? = some '-'.toUInt8
    let (n, rest) ← numeral negative (if negative then rest.drop 1 else rest)
    match n with
    | .integer i =>
      if i < 0 then fail (.wrongValue (.number n) expected) rest else .ok (i.toNat, rest)
    | .double _ => fail (.wrongType (.number n) expected) rest

def nullable {α : Type} (reader : Reader α) : Reader (Option α) := fun rest ↦
  match skipBlanks rest with
  | b :: rest =>
    if b = 'n'.toUInt8 then do .ok (none, ← literal ['u', 'l', 'l'] rest)
    else do
      let (value, rest) ← reader (b :: rest)
      .ok (some value, rest)
  | [] => fail .endInValue []

def opening {α : Type} (room : Nat) (inside : Nat → Reader α) : Reader α := fun rest ↦
  match room with
  | 0 => failAtNext .tooDeep rest
  | room + 1 => inside room (rest.drop 1)

def listValue {α : Type} (item : Nat → Reader α) (room : Nat) : Reader (List α) :=
  expecting "a sequence" (· = '['.toUInt8) (opening room fun room ↦ items (item room))

def knownName {α : Type} (known : List (String × α)) (name : String) (rest : Bytes) :
    Except Fault (α × Bytes) :=
  match Entries.get? known name with
  | some value => .ok (value, rest)
  | none => fail (.unknownVariant name (known.map (·.1))) rest

/-- The key of the only member of an object, which may not be missing. -/
def choiceKey : Reader String := fun rest ↦
  match skipBlanks rest with
  | [] => fail .endInObject []
  | b :: rest =>
    if b = '"'.toUInt8 then quoted rest
    else if b = '}'.toUInt8 then failAtNext .expectedValue (b :: rest)
    else failAtNext .keyNotString (b :: rest)

/-- One of the named values, as the key of an object's only member, which is `null`. -/
def choiceMember {α : Type} (known : List (String × α)) : Reader α := fun rest ↦ do
  let (name, rest) ← choiceKey rest
  let (value, rest) ← knownName known name rest
  let rest ← colon rest
  let (_, rest) ← expecting "unit" (· = 'n'.toUInt8)
    (fun rest ↦ do .ok ((), ← literal ['u', 'l', 'l'] (rest.drop 1))) rest
  match skipBlanks rest with
  | [] => fail .endInObject []
  | b :: rest => if b = '}'.toUInt8 then .ok (value, rest) else fail .expectedValue (b :: rest)

/-- One of the named values: its name as a string, or an object with the name as its only key. -/
def choice {α : Type} (known : List (String × α)) (room : Nat) : Reader α := fun rest ↦
  match skipBlanks rest with
  | [] => fail .endInValue []
  | b :: rest =>
    if b = '"'.toUInt8 then do
      let (name, rest) ← quoted rest
      knownName known name rest
    else if b = '{'.toUInt8 then opening room (fun _ ↦ choiceMember known) (b :: rest)
    else failAtNext .expectedValue (b :: rest)

/-- How values of a type are read, with room for nested brackets, and written. -/
structure Codec (α : Type) where
  read : Nat → Reader α
  write : α → Json

namespace Codec

variable {α : Type}

def decode (codec : Codec α) (input : Bytes) : Except ReadError α :=
  readWhole (codec.read maxDepth) input

def string : Codec String :=
  ⟨fun _ ↦ stringNamed "a string", .string⟩

def filePath : Codec String :=
  ⟨fun _ ↦ stringNamed "path string", .string⟩

def boolean : Codec Bool :=
  ⟨fun _ ↦ booleanValue, .bool⟩

/-- Natural numbers that fit in 64 bits, under the name that messages give to them. -/
def natural (expected : String) : Codec Nat :=
  ⟨fun _ ↦ naturalNamed expected, fun n ↦ .number (.integer n)⟩

def any : Codec Json :=
  ⟨value, id⟩

def document : Codec Document :=
  ⟨Json.document, .object⟩

def nullable (codec : Codec α) : Codec (Option α) where
  read room := Json.nullable (codec.read room)
  write
    | some value => codec.write value
    | none => .null

def list (codec : Codec α) : Codec (List α) where
  read := listValue codec.read
  write values := .array (values.map codec.write)

/-- Lists of strings without order and repetition. -/
def stringSet : Codec (OrderedSet String) where
  read room rest := do
    let (values, rest) ← Codec.string.list.read room rest
    .ok (OrderedSet.ofList values, rest)
  write set := Codec.string.list.write set.toList

/-- Values with a name each. -/
def named (known : List (String × α)) (name : α → String) : Codec α :=
  ⟨choice known, fun value ↦ .string (name value)⟩

end Codec

end PathStore.Json
