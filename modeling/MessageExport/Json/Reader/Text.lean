import MessageExport.Json.Fault
import MessageExport.Text.Digit
/-!
# MessageExport.Json.Reader.Text

Reading the **words and strings** of a JSON text.

Every function here works on the rest of the text. A string is read from after
its opening quote to after its closing one; `skipString` walks the same way but
asks less, for strings whose value nobody needs.
-/

namespace MessageExport.Json

open MessageExport.Text (hexDigit?)

/-- The blanks that may stand between tokens. -/
def isBlank (c : Char) : Bool :=
  c == ' ' || c == '\n' || c == '\t' || c == '\r'

/-- The rest of a text after its leading blanks. -/
def trim (s : List Char) : List Char :=
  s.dropWhile isBlank

@[simp] theorem trim_nil : trim [] = [] := rfl

/-- Read the given letters. -/
def word : (letters : List Char) → List Char → Except Failure (List Char)
  | [], s => .ok s
  | _ :: _, [] => .error (Fault.valueCutOff.here [])
  | letter :: letters, c :: rest =>
      if c = letter then word letters rest else .error (Fault.noIdent.byteAfter (c :: rest))

/-! ### Escapes -/

/-- The character of an escape of one letter. -/
def shortEscape? : Char → Option Char
  | '"' => some '"'
  | '\\' => some '\\'
  | '/' => some '/'
  | 'b' => some '\x08'
  | 'f' => some '\x0c'
  | 'n' => some '\n'
  | 'r' => some '\r'
  | 't' => some '\t'
  | _ => none

/-- The number written by four hexadecimal digits. -/
def quad? (a b c d : Char) : Option Nat := do
  let a ← hexDigit? a
  let b ← hexDigit? b
  let c ← hexDigit? c
  let d ← hexDigit? d
  some (((a * 16 + b) * 16 + c) * 16 + d)

/-- Read four hexadecimal digits, taking up four bytes whatever they hold. -/
def quad : Step Nat := fun s =>
  let malformed : Failure := ⟨.malformedEscape, byteCount s - 4⟩
  if byteCount (s.take 4) < 4 then .error (Fault.stringCutOff.here [])
  else
    match s with
    | a :: b :: c :: d :: rest =>
        match quad? a b c d with
        | some n => .ok (n, rest)
        | none => .error malformed
    | _ => .error malformed

/-- The number is the first half of a surrogate pair. -/
def isLeading (n : Nat) : Bool :=
  0xD800 ≤ n && n ≤ 0xDBFF

/-- The number is the second half of a surrogate pair. -/
def isTrailing (n : Nat) : Bool :=
  0xDC00 ≤ n && n ≤ 0xDFFF

/-- The character of a surrogate pair. -/
def pairChar (leading trailing : Nat) : Char :=
  Char.ofNat ((leading - 0xD800) * 0x400 + (trailing - 0xDC00) + 0x10000)

/-- Read the second half of a surrogate pair, an escape of its own. -/
def trailingHalf (leading : Nat) : Step Char
  | '\\' :: 'u' :: rest => do
      let (n, rest) ← quad rest
      if isTrailing n then .ok (pairChar leading n, rest)
      else .error (Fault.loneSurrogate.here rest)
  | '\\' :: c :: rest => .error (Fault.unfinishedPair.byteAfter (c :: rest))
  | ['\\'] => .error (Fault.stringCutOff.here [])
  | c :: rest => .error (Fault.unfinishedPair.byteAfter (c :: rest))
  | [] => .error (Fault.stringCutOff.here [])

/-- Read the character of a numeric escape, from after its `u`. -/
def numericEscape : Step Char := fun s => do
  let (n, rest) ← quad s
  if isTrailing n then .error (Fault.loneSurrogate.here rest)
  else if isLeading n then trailingHalf n rest
  else .ok (Char.ofNat n, rest)

/-- Read the character of an escape, from after its backslash. -/
def escape : Step Char
  | [] => .error (Fault.stringCutOff.here [])
  | 'u' :: rest => numericEscape rest
  | c :: rest =>
      match shortEscape? c with
      | some e => .ok (e, rest)
      | none => .error (Fault.malformedEscape.byteAfter (c :: rest))

/-! ### Strings -/

/-- Read the rest of a string onto the characters read, last first. -/
def stringFrom : (budget : Nat) → (read : List Char) → Step String
  | _, _, [] => .error (Fault.stringCutOff.here [])
  | 0, _, s => .error (Fault.stringCutOff.here s)
  | budget + 1, read, c :: rest =>
      if c = '"' then .ok (String.ofList read.reverse, rest)
      else if c = '\\' then do
        let (c, rest) ← escape rest
        stringFrom budget (c :: read) rest
      else if c < ' ' then .error (Fault.controlCharacter.here rest)
      else stringFrom budget (c :: read) rest

/-- Read a string, from after its opening quote. -/
def string : Step String := fun s => stringFrom s.length [] s

/-- Pass over an escape, from after its backslash. Half a surrogate pair is let pass. -/
def skipEscape : List Char → Except Failure (List Char)
  | [] => .error (Fault.stringCutOff.here [])
  | 'u' :: rest => do
      let (_, rest) ← quad rest
      .ok rest
  | c :: rest =>
      if (shortEscape? c).isSome then .ok rest
      else .error (Fault.malformedEscape.byteAfter (c :: rest))

/-- Pass over the rest of a string. -/
def skipStringFrom : (budget : Nat) → List Char → Except Failure (List Char)
  | _, [] => .error (Fault.stringCutOff.here [])
  | 0, s => .error (Fault.stringCutOff.here s)
  | budget + 1, c :: rest =>
      if c = '"' then .ok rest
      else if c = '\\' then do
        let rest ← skipEscape rest
        skipStringFrom budget rest
      else if c < ' ' then .error (Fault.controlCharacter.here (c :: rest))
      else skipStringFrom budget rest

/-- Pass over a string, from after its opening quote. -/
def skipString (s : List Char) : Except Failure (List Char) :=
  skipStringFrom s.length s

end MessageExport.Json
