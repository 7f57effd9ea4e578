import PathStore.Query.Reading

/-!
# Places and wordings of query errors

The message of a query error holds its position once.  What stands before the position depends on
the kind of error and on the character found, and behind it stands nothing or a quotation of the
text ahead.  So an error can be moved along a text, and nothing but the number in its message
changes.
-/

namespace PathStore

namespace OperandError

/-- The error `count` characters further on. -/
def shift (count : Nat) : OperandError → OperandError
  | .endOfInput position => .endOfInput (position + count)
  | .unexpected found position => .unexpected found (position + count)
  | .unterminated position => .unterminated (position + count)

def isUnterminated : OperandError → Bool
  | .unterminated _ => true
  | _ => false

def opening : OperandError → String
  | .endOfInput _ => "unexpected end of input at position "
  | .unexpected found _ => s!"unexpected character '{String.singleton found}' at position "
  | .unterminated _ => "unterminated quoted string starting at position "

variable (error : OperandError) (count more : Nat)

/-- The message of an operand ends in the position. -/
theorem message_eq : error.message = error.opening ++ toString error.position := by
  cases error <;> rfl

@[simp]
theorem position_shift : (error.shift count).position = error.position + count := by
  cases error <;> rfl

@[simp]
theorem opening_shift : (error.shift count).opening = error.opening := by
  cases error <;> rfl

@[simp]
theorem isUnterminated_shift : (error.shift count).isUnterminated = error.isUnterminated := by
  cases error <;> rfl

@[simp]
theorem shift_shift : (error.shift count).shift more = error.shift (count + more) := by
  cases error <;> simp [shift, Nat.add_assoc]

end OperandError

namespace QueryError

/-- The error `count` characters further on. -/
def shift (count : Nat) : QueryError → QueryError
  | .key error => .key (error.shift count)
  | .value error => .value (error.shift count)
  | .missingColon position rest => .missingColon (position + count) rest
  | .missingBlank position rest => .missingBlank (position + count) rest

def isUnterminated : QueryError → Bool
  | .key error | .value error => error.isUnterminated
  | .missingColon _ _ | .missingBlank _ _ => false

/-- The text ahead, if the message quotes it. -/
def ahead? : QueryError → Option (List Char)
  | .key _ | .value _ => none
  | .missingColon _ rest | .missingBlank _ rest => some rest

def opening : QueryError → String
  | .key error => "expected valid key: " ++ error.opening
  | .value error => "expected valid value: " ++ error.opening
  | .missingColon _ _ => "expected ':' at position "
  | .missingBlank _ _ => "expected whitespace between comparisons at position "

/-- The message behind the position. -/
def ending (error : QueryError) : String :=
  match error.ahead? with
  | some rest => s!", found `{String.ofList rest}`"
  | none => ""

variable (error : QueryError) (count more : Nat)

/-- The position stands between two parts that do not depend on it. -/
theorem message_eq : error.message = error.opening ++ toString error.position ++ error.ending := by
  have hassoc (start opening position : String) :
      start ++ (opening ++ position) = start ++ opening ++ position ++ "" := by
    rw [String.append_empty, String.append_assoc]
  have hmissing (opening position quoted : String) :
      opening ++ position ++ ", found `" ++ quoted ++ "`" =
        opening ++ position ++ (", found `" ++ quoted ++ "`") := by
    simp only [String.append_assoc]
  cases error with
  | key error => exact (congrArg _ error.message_eq).trans (hassoc _ _ _)
  | value error => exact (congrArg _ error.message_eq).trans (hassoc _ _ _)
  | missingColon position rest => exact hmissing _ _ _
  | missingBlank position rest => exact hmissing _ _ _

@[simp]
theorem position_shift : (error.shift count).position = error.position + count := by
  cases error <;> simp [shift, position]

@[simp]
theorem ahead?_shift : (error.shift count).ahead? = error.ahead? := by
  cases error <;> rfl

@[simp]
theorem isUnterminated_shift : (error.shift count).isUnterminated = error.isUnterminated := by
  cases error <;> simp [shift, isUnterminated]

@[simp]
theorem shift_shift : (error.shift count).shift more = error.shift (count + more) := by
  cases error <;> simp [shift, Nat.add_assoc]

@[simp]
theorem opening_shift : (error.shift count).opening = error.opening := by
  cases error with
  | key error => exact congrArg ("expected valid key: " ++ ·) (error.opening_shift count)
  | value error => exact congrArg ("expected valid value: " ++ ·) (error.opening_shift count)
  | missingColon position rest => rfl
  | missingBlank position rest => rfl

@[simp]
theorem ending_shift : (error.shift count).ending = error.ending := by
  cases error <;> rfl

/-- A message changes with its position, and in nothing else. -/
theorem message_shift :
    (error.shift count).message =
      error.opening ++ toString (error.position + count) ++ error.ending := by
  rw [message_eq, opening_shift, position_shift, ending_shift]

end QueryError

end PathStore
