/-!
# MessageExport.Json.Fault

**Faults** of a JSON text and the **places** where they are found.

A reader works on the rest of a text, so the natural measure of a place is how
many bytes are left after it; `lineColumn` turns that into a line and a column
once the whole text is known. A fault found by looking at a character is placed
after the first byte of that character, which `byteAfter` says.
-/

namespace MessageExport.Json

/-- What can be wrong with a JSON text. -/
inductive Fault where
  /-- The text ends where a value should stand. -/
  | valueCutOff
  /-- The text ends inside a string. -/
  | stringCutOff
  /-- The text ends inside an object. -/
  | objectCutOff
  /-- The text ends inside an array. -/
  | arrayCutOff
  /-- No value begins here. -/
  | noValue
  /-- A misspelt `true`, `false` or `null`. -/
  | noIdent
  /-- No colon after a member name. -/
  | noColon
  /-- Neither a comma nor the end after an element. -/
  | noElementEnd
  /-- Neither a comma nor the end after a member. -/
  | noMemberEnd
  /-- A comma before the closing bracket. -/
  | trailingComma
  /-- Something follows where all should have ended. -/
  | trailingCharacters
  /-- A member name that is not a string. -/
  | nameNotText
  /-- A malformed number. -/
  | malformedNumber
  /-- A number past the largest floating point number. -/
  | numberTooLarge
  /-- A malformed escape. -/
  | malformedEscape
  /-- A control character inside a string. -/
  | controlCharacter
  /-- An escape with one half of a surrogate pair. -/
  | loneSurrogate
  /-- The first half of a surrogate pair is not followed by an escape. -/
  | unfinishedPair
  /-- Objects and arrays are nested too deeply. -/
  | tooDeep
  deriving DecidableEq, Repr

/-- What is said of a fault. -/
def Fault.message : Fault → String
  | .valueCutOff => "EOF while parsing a value"
  | .stringCutOff => "EOF while parsing a string"
  | .objectCutOff => "EOF while parsing an object"
  | .arrayCutOff => "EOF while parsing a list"
  | .noValue => "expected value"
  | .noIdent => "expected ident"
  | .noColon => "expected `:`"
  | .noElementEnd => "expected `,` or `]`"
  | .noMemberEnd => "expected `,` or `\x7d`"
  | .trailingComma => "trailing comma"
  | .trailingCharacters => "trailing characters"
  | .nameNotText => "key must be a string"
  | .malformedNumber => "invalid number"
  | .numberTooLarge => "number out of range"
  | .malformedEscape => "invalid escape"
  | .controlCharacter => "control character (\\u0000-\\u001F) found while parsing a string"
  | .loneSurrogate => "lone leading surrogate in hex escape"
  | .unfinishedPair => "unexpected end of hex escape"
  | .tooDeep => "recursion limit exceeded"

/-- A fault and its place. -/
structure Failure where
  fault : Fault
  /-- How many bytes of the text follow the place. -/
  left : Nat
  deriving DecidableEq, Repr

/-- A step of a reader: from the rest of a text to a value and what is left. -/
abbrev Step (α : Type) := List Char → Except Failure (α × List Char)

/-! ### Places -/

/-- How many bytes a text takes up in UTF-8. -/
def byteCount : List Char → Nat
  | [] => 0
  | c :: rest => c.utf8Size + byteCount rest

@[simp] theorem byteCount_nil : byteCount [] = 0 := rfl

@[simp] theorem byteCount_cons (c : Char) (s : List Char) :
    byteCount (c :: s) = c.utf8Size + byteCount s := rfl

/-- A fault where the rest of the text begins. -/
def Fault.here (fault : Fault) (rest : List Char) : Failure :=
  ⟨fault, byteCount rest⟩

/-- A fault at the first character of the rest, which has been looked at. -/
def Fault.byteAfter (fault : Fault) (rest : List Char) : Failure :=
  ⟨fault, byteCount rest - 1⟩

/-- The line, from 1, and the column that lie so many bytes into a text. A column
counts the bytes since the last line break. -/
def lineColumnFrom (line column : Nat) : (bytes : Nat) → List Char → Nat × Nat
  | _, [] => (line, column)
  | bytes, c :: rest =>
      if bytes < c.utf8Size then (line, column + bytes)
      else if c = '\n' then lineColumnFrom (line + 1) 0 (bytes - c.utf8Size) rest
      else lineColumnFrom line (column + c.utf8Size) (bytes - c.utf8Size) rest

/-- The line and the column of the place that so many bytes of a text follow. -/
def lineColumn (text : List Char) (left : Nat) : Nat × Nat :=
  lineColumnFrom 1 0 (byteCount text - left) text

/-- A place as it is given at the end of a message. -/
def placeText (text : List Char) (left : Nat) : String :=
  let (line, column) := lineColumn text left
  " at line " ++ toString line ++ " column " ++ toString column

example : lineColumn "a\né]".toList 1 = (2, 2) := by decide

end MessageExport.Json
