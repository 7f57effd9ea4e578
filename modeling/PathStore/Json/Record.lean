import PathStore.Json.Typed

/-!
# Records

A record has named fields of given types.  It is read from an object, whose members may come in any
order and among others that are passed over, or from an array with the values of the fields in their
order.  A field may be optional, and then keeps its default when it is missing.  A record is always
written as an object, its members in the order of the fields.
-/

namespace PathStore.Json

/-- A field of a record: how its value is read, with room for nested brackets, and put in, and how
it is written, if it is. -/
structure Field (ρ : Type) where
  name : String
  optional : Bool
  read : Nat → Reader (ρ → ρ)
  write : ρ → Option Json

namespace Field

variable {ρ α : Type}

/-- A field whose value must be there. -/
def required (name : String) (codec : Codec α) (get : ρ → α) (put : α → ρ → ρ) : Field ρ where
  name := name
  optional := false
  read room rest := do
    let (value, rest) ← codec.read room rest
    .ok (put value, rest)
  write record := some (codec.write (get record))

/-- A field that keeps its default when it is missing, and is always written. -/
def defaulted (name : String) (codec : Codec α) (get : ρ → α) (put : α → ρ → ρ) : Field ρ :=
  { required name codec get put with optional := true }

/-- A field that may be missing or `null`, and is not written then. -/
def possible (name : String) (codec : Codec α) (get : ρ → Option α) (put : Option α → ρ → ρ) :
    Field ρ :=
  { defaulted name codec.nullable get put with write := fun record ↦ (get record).map codec.write }

end Field

structure RecordFormat (ρ : Type) where
  name : String
  /-- The record whose optional fields have their defaults. -/
  blank : ρ
  fields : List (Field ρ)

namespace RecordFormat

variable {ρ : Type}

def description (format : RecordFormat ρ) : String :=
  "struct " ++ format.name

def lengthDescription (format : RecordFormat ρ) : String :=
  let count := format.fields.length
  s!"{format.description} with {count} element" ++ (if count = 1 then "" else "s")

/-- The record from the values of its fields in their order. -/
def fromItems (format : RecordFormat ρ) (room : Nat) :
    List (Field ρ) → Nat → ρ → Reader ρ
  | [], _, record, rest => .ok (record, rest)
  | field :: fields, index, record, rest => do
    match ← anotherItem (index = 0) rest with
    | (false, rest) =>
      if field.optional then fromItems format room fields (index + 1) record rest
      else fail (.wrongLength index format.lengthDescription) rest
    | (true, rest) =>
      let (put, rest) ← field.read room rest
      fromItems format room fields (index + 1) (put record) rest

/-- The first field that may not be missing and is not among those seen. -/
def missing? (format : RecordFormat ρ) (seen : List String) : Option (Field ρ) :=
  format.fields.find? fun field ↦ !field.optional && !seen.contains field.name

/-- The record from the members of an object; `seen` are the fields that have come.  A byte string
no shorter than the rest is enough `fuel`. -/
def fromMembers (format : RecordFormat ρ) (room : Nat) :
    Bytes → Bool → List String → ρ → Reader ρ
  | [], _, _, _, rest => fail .endInObject rest
  | _ :: fuel, first, seen, record, rest => do
    match ← anotherMember first rest with
    | (false, rest) =>
      match format.missing? seen with
      | some field => fail (.missingField field.name) rest
      | none => .ok (record, rest)
    | (true, rest) =>
      let (key, rest) ← quoted rest
      match format.fields.find? (·.name = key) with
      | some field =>
        if seen.contains key then fail (.duplicateField key) rest
        else
          let (put, rest) ← field.read room (← colon rest)
          fromMembers format room fuel false (key :: seen) (put record) rest
      | none =>
        let rest ← skipValue (← colon rest)
        fromMembers format room fuel false seen record rest

def read (format : RecordFormat ρ) (room : Nat) : Reader ρ := fun rest ↦
  match skipBlanks rest with
  | [] => fail .endInValue []
  | b :: rest =>
    if b = '['.toUInt8 then
      opening room (fun room rest ↦ do
        let (record, rest) ← fromItems format room format.fields 0 format.blank rest
        .ok (record, ← closeArray rest)) (b :: rest)
    else if b = '{'.toUInt8 then
      opening room (fun room rest ↦ do
        let (record, rest) ← fromMembers format room rest true [] format.blank rest
        .ok (record, ← closeObject rest)) (b :: rest)
    else wrongType format.description (b :: rest)

def write (format : RecordFormat ρ) (record : ρ) : Json :=
  .object (format.fields.filterMap fun field ↦ (field.write record).map (field.name, ·))

def codec (format : RecordFormat ρ) : Codec ρ :=
  ⟨format.read, format.write⟩

end RecordFormat

end PathStore.Json
