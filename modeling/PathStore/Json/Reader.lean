import PathStore.Json.Quoted

/-!
# Reading a value

The reader looks at one byte to know what follows.  It follows arrays and objects to a limited
depth: `room` says how many more brackets may be opened.  A repeated key keeps its last value.  An
object whose first key is `textMark` is not read as an object: the string behind the key is read as
a text of its own, with room for all brackets again, and its value takes the object's place.  A
whole text is read as a value of any kind or as a document, which must be an object and whose own
first key may be the mark.  All these rules are those of `serde_json`, with its `raw_value` feature,
and none of them is the store's own.
-/

namespace PathStore.Json

/-- How many brackets may be open at once. -/
def maxDepth : Nat := 127

def isBlankByte (b : UInt8) : Bool :=
  b = 0x20 || b = 0x0A || b = 0x0D || b = 0x09

def skipBlanks (rest : Bytes) : Bytes :=
  rest.dropWhile isBlankByte

def literal (letters : List Char) (rest : Bytes) : Except Fault Bytes :=
  match letters, rest with
  | [], rest => .ok rest
  | _ :: _, [] => fail .endInValue []
  | c :: letters, b :: rest =>
    if b = c.toUInt8 then literal letters rest else fail .expectedLiteral rest

/-- Refuses the next value because it is of the wrong type.  A scalar is read to say what it is, an
array or an object is not. -/
def wrongType {α : Type} (expected : String) (rest : Bytes) : Except Fault α :=
  match rest with
  | [] => failAtNext .expectedValue []
  | b :: rest =>
    if b = 'n'.toUInt8 then do
      fail (.wrongType .null expected) (← literal ['u', 'l', 'l'] rest)
    else if b = 't'.toUInt8 then do
      fail (.wrongType (.bool true) expected) (← literal ['r', 'u', 'e'] rest)
    else if b = 'f'.toUInt8 then do
      fail (.wrongType (.bool false) expected) (← literal ['a', 'l', 's', 'e'] rest)
    else if b = '-'.toUInt8 then do
      let (n, rest) ← numeral true rest
      fail (.wrongType (.number n) expected) rest
    else if isDigit b then do
      let (n, rest) ← numeral false (b :: rest)
      fail (.wrongType (.number n) expected) rest
    else if b = '"'.toUInt8 then do
      let (text, rest) ← quoted rest
      fail (.wrongType (.string text) expected) rest
    else if b = '['.toUInt8 then fail (.wrongType .sequence expected) (b :: rest)
    else if b = '{'.toUInt8 then fail (.wrongType .map expected) (b :: rest)
    else failAtNext .expectedValue (b :: rest)

/-- Reads a value that begins with a byte of the expected kind. -/
def expecting {α : Type} (expected : String) (accepts : UInt8 → Bool) (reader : Reader α) :
    Reader α := fun rest ↦
  match skipBlanks rest with
  | [] => fail .endInValue []
  | b :: rest => if accepts b then reader (b :: rest) else wrongType expected (b :: rest)

/-- A string, under the name that the message gives to it. -/
def stringNamed (expected : String) : Reader String :=
  expecting expected (· = '"'.toUInt8) fun rest ↦ quoted (rest.drop 1)

/-- Whether another item follows; if so the rest begins with it, and otherwise with the closing
bracket. -/
def anotherItem (first : Bool) (rest : Bytes) : Except Fault (Bool × Bytes) :=
  match skipBlanks rest with
  | [] => fail .endInList []
  | b :: rest =>
    if b = ']'.toUInt8 then .ok (false, b :: rest)
    else if first then .ok (true, b :: rest)
    else if b = ','.toUInt8 then
      match skipBlanks rest with
      | [] => fail .endInValue []
      | b :: rest =>
        if b = ']'.toUInt8 then failAtNext .trailingComma (b :: rest) else .ok (true, b :: rest)
    else failAtNext .expectedCommaOrBracket (b :: rest)

/-- The items up to the closing bracket, behind those in `done`, which are in reverse order.  Every
item uses up at least one byte, so a byte string no shorter than the rest is enough `fuel`. -/
def itemsAfter {α : Type} (item : Reader α) : Bytes → List α → Reader (List α)
  | [], _, rest => fail .endInList rest
  | _ :: fuel, done, rest =>
    match anotherItem done.isEmpty rest with
    | .error fault => .error fault
    | .ok (false, rest) => .ok (done.reverse, rest)
    | .ok (true, rest) =>
      match item rest with
      | .error fault => .error fault
      | .ok (value, rest) => itemsAfter item fuel (value :: done) rest

def closeArray (rest : Bytes) : Except Fault Bytes :=
  match skipBlanks rest with
  | [] => fail .endInList []
  | b :: rest =>
    if b = ']'.toUInt8 then .ok rest
    else if b = ','.toUInt8 then
      match skipBlanks rest with
      | b :: rest =>
        failAtNext (if b = ']'.toUInt8 then .trailingComma else .trailingCharacters) (b :: rest)
      | [] => failAtNext .trailingCharacters []
    else failAtNext .trailingCharacters (b :: rest)

def items {α : Type} (item : Reader α) : Reader (List α) := fun rest ↦ do
  let (values, rest) ← itemsAfter item rest [] rest
  .ok (values, ← closeArray rest)

/-- Whether another member follows; if so the rest begins behind the opening quote of its key, and
otherwise with the closing brace. -/
def anotherMember (first : Bool) (rest : Bytes) : Except Fault (Bool × Bytes) :=
  match skipBlanks rest with
  | [] => fail .endInObject []
  | b :: rest =>
    if b = '}'.toUInt8 then .ok (false, b :: rest)
    else if first then
      if b = '"'.toUInt8 then .ok (true, rest) else failAtNext .keyNotString (b :: rest)
    else if b = ','.toUInt8 then
      match skipBlanks rest with
      | [] => fail .endInValue []
      | b :: rest =>
        if b = '"'.toUInt8 then .ok (true, rest)
        else if b = '}'.toUInt8 then failAtNext .trailingComma (b :: rest)
        else failAtNext .keyNotString (b :: rest)
    else failAtNext .expectedCommaOrBrace (b :: rest)

def colon (rest : Bytes) : Except Fault Bytes :=
  match skipBlanks rest with
  | [] => fail .endInObject []
  | b :: rest => if b = ':'.toUInt8 then .ok rest else failAtNext .expectedColon (b :: rest)

def closeObject (rest : Bytes) : Except Fault Bytes :=
  match skipBlanks rest with
  | [] => fail .endInObject []
  | b :: rest =>
    if b = '}'.toUInt8 then .ok rest
    else
      failAtNext (if b = ','.toUInt8 then .trailingComma else .trailingCharacters) (b :: rest)

/-- The members up to the closing brace, put into those in `done`.  Every member uses up at least
one byte, so a byte string no shorter than the rest is enough `fuel`. -/
def membersAfter (value : Reader Json) : Bytes → Bool → Document → Reader Document
  | [], _, _, rest => fail .endInObject rest
  | _ :: fuel, first, done, rest =>
    match anotherMember first rest with
    | .error fault => .error fault
    | .ok (false, rest) => .ok (done, rest)
    | .ok (true, rest) => do
      let (key, rest) ← quoted rest
      let rest ← colon rest
      match value rest with
      | .error fault => .error fault
      | .ok (v, rest) => membersAfter value fuel false (Entries.insert done key v) rest

def members (value : Reader Json) : Reader Document := fun rest ↦ do
  let (document, rest) ← membersAfter value rest true [] rest
  .ok (document, ← closeObject rest)

/-- What follows the mark, if the first key behind an opening brace is the mark. -/
def behindMark? (rest : Bytes) : Option Bytes :=
  match anotherMember true rest with
  | .ok (true, rest) =>
    match quoted rest with
    | .ok (key, rest) => if key = textMark then some rest else none
    | .error _ => none
  | _ => none

/-- The value of the text that stands behind a mark; `embedded` reads that text. -/
def markedValue (embedded : Bytes → Except ReadError Json) : Reader Json := fun rest ↦ do
  let (text, rest) ← stringNamed "raw value" (← colon rest)
  match embedded (Utf8.encode text) with
  | .ok value => .ok (value, ← closeObject rest)
  | .error error => .error (.within error)

/-- What an opening brace begins: an object, unless its first key is the mark. -/
def bracedValue (embedded : Bytes → Except ReadError Json) (value : Reader Json) : Reader Json :=
  fun rest ↦
    match behindMark? rest with
    | some rest => markedValue embedded rest
    | none => do
      let (document, rest) ← members value rest
      .ok (.object document, rest)

/-- A value of any kind; `nested` reads the values inside an array or an object, and without it none
may be opened. -/
def valueWith (embedded : Bytes → Except ReadError Json) (nested : Option (Reader Json)) :
    Reader Json := fun rest ↦
  match skipBlanks rest with
  | [] => fail .endInValue []
  | b :: rest =>
    if b = 'n'.toUInt8 then do .ok (.null, ← literal ['u', 'l', 'l'] rest)
    else if b = 't'.toUInt8 then do .ok (.bool true, ← literal ['r', 'u', 'e'] rest)
    else if b = 'f'.toUInt8 then do .ok (.bool false, ← literal ['a', 'l', 's', 'e'] rest)
    else if b = '-'.toUInt8 then do
      let (n, rest) ← numeral true rest
      .ok (.number n, rest)
    else if isDigit b then do
      let (n, rest) ← numeral false (b :: rest)
      .ok (.number n, rest)
    else if b = '"'.toUInt8 then do
      let (text, rest) ← quoted rest
      .ok (.string text, rest)
    else if b = '['.toUInt8 then
      match nested with
      | none => failAtNext .tooDeep (b :: rest)
      | some value => do
        let (values, rest) ← items value rest
        .ok (.array values, rest)
    else if b = '{'.toUInt8 then
      match nested with
      | none => failAtNext .tooDeep (b :: rest)
      | some value => bracedValue embedded value rest
    else failAtNext .expectedValue (b :: rest)

/-- A value in which at most `room` brackets are open at once. -/
def valueIn (embedded : Bytes → Except ReadError Json) : Nat → Reader Json
  | 0 => valueWith embedded none
  | room + 1 => valueWith embedded (some (valueIn embedded room))

def whole {α : Type} (reader : Reader α) (input : Bytes) : Except Fault α := do
  let (result, rest) ← reader input
  match skipBlanks rest with
  | [] => .ok result
  | b :: rest => failAtNext .trailingCharacters (b :: rest)

def readWhole {α : Type} (reader : Reader α) (input : Bytes) : Except ReadError α :=
  (whole reader input).mapError (·.report input)

/-- The value that a text denotes.  A text inside another one is shorter, so a byte string no
shorter than the input is enough `fuel`. -/
def parseWithin : Bytes → Bytes → Except ReadError Json
  | [], input => (fail .endInValue input).mapError (·.report input)
  | _ :: fuel, input => readWhole (valueIn (parseWithin fuel) maxDepth) input

def parse (input : Bytes) : Except ReadError Json :=
  parseWithin input input

/-- A value in which at most `room` brackets are open at once, not counting those in the texts
inside it. -/
def value (room : Nat) : Reader Json :=
  valueIn parse room

def document (room : Nat) : Reader Document := fun rest ↦
  match skipBlanks rest with
  | [] => fail .endInValue []
  | b :: rest =>
    if b = '{'.toUInt8 then
      match room with
      | 0 => failAtNext .tooDeep (b :: rest)
      | room + 1 => members (value room) rest
    else wrongType "a map" (b :: rest)

def parseDocument (input : Bytes) : Except ReadError Document :=
  readWhole (document maxDepth) input

end PathStore.Json
