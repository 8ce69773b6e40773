import PathRouting.Text.Quoted

/-!
# Faults in a JSON document

Why a document cannot be read, and where. A reader works on the text that is left, so it
notes the place of a fault by the number of bytes after it; the line and the column come
out once the whole document is at hand.

## Main definitions

* `Json.Cause` — what is wrong, with its wording
* `Json.Found` — a value that stands where one of another kind belongs
* `Json.Fault` — a cause, and how much of the document is left at its place
* `Json.Position` — a line and a column
* `Json.Error` — a cause at a position, with its wording

## Main results

* `Json.bind_eq_ok_iff` — when two steps of reading succeed
-/

namespace PathRouting.Json

open Text

/-- A value that stands where one of another kind belongs. -/
inductive Found where
  /-- The word for no value. -/
  | null
  /-- A truth value. -/
  | boolean (value : Bool)
  /-- A number without fraction and exponent, of a size that machine words hold. -/
  | integer (value : Int)
  /-- Any other number, in its decimal form. -/
  | floatingPoint (text : String)
  /-- A text. -/
  | string (text : String)
  /-- A list, whatever is in it. -/
  | sequence
  /-- An object, whatever is in it. -/
  | map
deriving DecidableEq

/-- How a value that is in the wrong place is described. -/
def Found.describe : Found → String
  | null => "null"
  | boolean true => "boolean `true`"
  | boolean false => "boolean `false`"
  | integer value => "integer `" ++ toString value ++ "`"
  | floatingPoint text => "floating point `" ++ text ++ "`"
  | string text => "string " ++ quote text
  | sequence => "sequence"
  | map => "map"

/-- What is wrong with a document. -/
inductive Cause where
  /-- The document ends inside a list. -/
  | endInList
  /-- The document ends inside an object. -/
  | endInObject
  /-- The document ends inside a text. -/
  | endInString
  /-- The document ends where a value belongs. -/
  | endInValue
  /-- Something else stands where the colon after a key belongs. -/
  | expectedColon
  /-- Something else stands after an item of a list. -/
  | expectedListEnd
  /-- Something else stands after a member of an object. -/
  | expectedObjectEnd
  /-- A word is not spelled `true`, `false` or `null`. -/
  | expectedWord
  /-- Something else stands where a value belongs. -/
  | expectedValue
  /-- A backslash begins no escape. -/
  | invalidEscape
  /-- A number lacks a digit, or begins with a zero too many. -/
  | invalidNumber
  /-- A number is larger than any floating-point number. -/
  | numberOutOfRange
  /-- A text has a control character that is not escaped. -/
  | controlCharacter
  /-- A key is not a text. -/
  | keyNotString
  /-- An escape for half a character stands alone. -/
  | loneSurrogate
  /-- A comma has nothing behind it. -/
  | trailingComma
  /-- The document goes on after its value. -/
  | trailingCharacters
  /-- The second half of a character does not follow the first. -/
  | missingSurrogate
  /-- A field is given twice. -/
  | duplicateField (name : String)
  /-- A text names none of the choices. -/
  | unknownVariant (name : String) (choices : List String)
  /-- A value is of the wrong kind. -/
  | invalidType (found : Found) (expected : String)
deriving DecidableEq

/-- The wording of a cause. -/
def Cause.message : Cause → String
  | endInList => "EOF while parsing a list"
  | endInObject => "EOF while parsing an object"
  | endInString => "EOF while parsing a string"
  | endInValue => "EOF while parsing a value"
  | expectedColon => "expected `:`"
  | expectedListEnd => "expected `,` or `]`"
  | expectedObjectEnd => "expected `,` or `\x7d`"
  | expectedWord => "expected ident"
  | expectedValue => "expected value"
  | invalidEscape => "invalid escape"
  | invalidNumber => "invalid number"
  | numberOutOfRange => "number out of range"
  | controlCharacter => "control character (\\u0000-\\u001F) found while parsing a string"
  | keyNotString => "key must be a string"
  | loneSurrogate => "lone leading surrogate in hex escape"
  | trailingComma => "trailing comma"
  | trailingCharacters => "trailing characters"
  | missingSurrogate => "unexpected end of hex escape"
  | duplicateField name => "duplicate field `" ++ name ++ "`"
  | unknownVariant name choices =>
    "unknown variant `" ++ name ++ "`, expected "
      ++ String.intercalate " or " (choices.map fun choice => "`" ++ choice ++ "`")
  | invalidType found expected =>
    "invalid type: " ++ found.describe ++ ", expected " ++ expected

/-- A cause, and the number of bytes of the document after its place. -/
structure Fault where
  /-- What is wrong. -/
  cause : Cause
  /-- The number of bytes after its place. -/
  left : Nat
deriving DecidableEq

/-- The number of bytes of a text. -/
def byteLength (text : List Char) : Nat :=
  text.foldr (fun c size => c.utf8Size + size) 0

/-- A fault at the place where `rest` is left. -/
def faultAt {β : Type} (cause : Cause) (rest : List Char) : Except Fault β :=
  .error ⟨cause, byteLength rest⟩

/-- A fault so many bytes into `rest`, or at its end if it is shorter. -/
def faultAfter {β : Type} (bytes : Nat) (cause : Cause) (rest : List Char) : Except Fault β :=
  .error ⟨cause, byteLength rest - bytes⟩

/-- Two steps of reading succeed if the first does, and the second does with its result. -/
theorem bind_eq_ok_iff {β γ : Type} {x : Except Fault β} {f : β → Except Fault γ} {c : γ} :
    x >>= f = .ok c ↔ ∃ b, x = .ok b ∧ f b = .ok c := by
  cases x <;> simp [bind, Except.bind]

/-- What reports an error gives no result. -/
@[simp] theorem faultAt_ne_ok {β : Type} {cause : Cause} {rest : List Char} {b : β} :
    faultAt cause rest ≠ .ok b := by
  simp [faultAt]

@[simp] theorem faultAfter_ne_ok {β : Type} {n : Nat} {cause : Cause} {rest : List Char}
    {b : β} : faultAfter n cause rest ≠ .ok b := by
  simp [faultAfter]

/-- A place in a text. -/
structure Position where
  /-- The number of the line, from one. -/
  line : Nat
  /-- The number of bytes of the line before the place. -/
  column : Nat
deriving DecidableEq

/-- The place `offset` bytes after the place `start`, where `text` begins. -/
def Position.advance (start : Position) (offset : Nat) : List Char → Position
  | [] => ⟨start.line, start.column + offset⟩
  | c :: rest =>
    if c.utf8Size ≤ offset then
      if c = '\n' then advance ⟨start.line + 1, 0⟩ (offset - 1) rest
      else advance ⟨start.line, start.column + c.utf8Size⟩ (offset - c.utf8Size) rest
    else ⟨start.line, start.column + offset⟩

/-- A cause at a position. -/
structure Error where
  /-- What is wrong. -/
  cause : Cause
  /-- Where it is. -/
  position : Position
deriving DecidableEq

/-- The wording of an error. -/
def Error.message (e : Error) : String :=
  e.cause.message ++ " at line " ++ toString e.position.line
    ++ " column " ++ toString e.position.column

/-- The error that a fault in a document is. -/
def Fault.toError (document : List Char) (fault : Fault) : Error :=
  ⟨fault.cause, Position.advance ⟨1, 0⟩ (byteLength document - fault.left) document⟩

end PathRouting.Json
