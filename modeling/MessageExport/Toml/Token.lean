import MessageExport.Text.Digit
/-!
# MessageExport.Toml.Token

Reading the **small parts** of a TOML text: blanks, line ends, comments, strings
and keys.

A text that is not TOML is refused as a whole, so a step simply has no result
where it cannot go on.
-/

namespace MessageExport.Toml

open MessageExport.Text (hexDigit? isDigit)

/-- A step of the reader: from the rest of a text to a value and what is left. -/
abbrev Step (α : Type) := List Char → Option (α × List Char)

/-! ### Blanks and lines -/

/-- A blank within a line. -/
def isBlank (c : Char) : Bool :=
  c == ' ' || c == '\t'

/-- The rest of a text after blanks. -/
def trim (s : List Char) : List Char :=
  s.dropWhile isBlank

/-- A character that can stand in a comment: no control character but the tab. -/
def isPlain (c : Char) : Bool :=
  c == '\t' || (0x20 ≤ c.toNat && c.toNat ≤ 0x7E) || 0x80 ≤ c.toNat

/-- The rest of a text after a line break. -/
def newline? : List Char → Option (List Char)
  | '\n' :: rest => some rest
  | '\r' :: '\n' :: rest => some rest
  | _ => none

/-- The rest of a text after a comment, if one begins here. -/
def afterComment : List Char → List Char
  | '#' :: rest => rest.dropWhile isPlain
  | s => s

/-- The rest of a text after the end of a line: blanks, a comment, and a line break or
the end of the text. -/
def lineEnd? (s : List Char) : Option (List Char) :=
  match afterComment (trim s) with
  | [] => some []
  | rest => newline? rest

/-- The rest of a text after blanks and line breaks. -/
def afterBlankLines : List Char → List Char
  | ' ' :: rest => afterBlankLines rest
  | '\t' :: rest => afterBlankLines rest
  | '\n' :: rest => afterBlankLines rest
  | '\r' :: '\n' :: rest => afterBlankLines rest
  | s => s

/-- The rest of a text after blanks, line breaks and comments. -/
def afterGap : (budget : Nat) → List Char → List Char
  | 0, s => s
  | budget + 1, s =>
      match afterBlankLines s with
      | '#' :: rest => afterGap budget (rest.dropWhile isPlain)
      | rest => rest

/-- The rest of a text after blanks, line breaks and comments. -/
def gap (s : List Char) : List Char :=
  afterGap (s.length + 1) s

/-! ### Strings -/

/-- The character of an escape of one letter. -/
def shortEscape? : Char → Option Char
  | 'b' => some '\x08'
  | 't' => some '\t'
  | 'n' => some '\n'
  | 'f' => some '\x0c'
  | 'r' => some '\r'
  | '"' => some '"'
  | '\\' => some '\\'
  | _ => none

/-- The number written by hexadecimal digits. -/
def hexNumber? (digits : List Char) : Option Nat :=
  digits.foldlM (fun n c => (hexDigit? c).map fun d => 16 * n + d) 0

/-- Read the character given by its number in `width` hexadecimal digits. -/
def numericEscape (width : Nat) : Step Char := fun s => do
  if (s.take width).length < width then none
  else
    let n ← hexNumber? (s.take width)
    if n.isValidChar then some (Char.ofNat n, s.drop width) else none

/-- Read the character of an escape, from after its backslash. -/
def escape : Step Char
  | [] => none
  | 'u' :: rest => numericEscape 4 rest
  | 'U' :: rest => numericEscape 8 rest
  | c :: rest => (shortEscape? c).map fun e => (e, rest)

/-- Read the rest of a string with escapes on one line. -/
def basicFrom : (budget : Nat) → (read : List Char) → Step String
  | 0, _, _ => none
  | _ + 1, _, [] => none
  | budget + 1, read, c :: rest =>
      if c = '"' then some (String.ofList read.reverse, rest)
      else if c = '\\' then do
        let (c, rest) ← escape rest
        basicFrom budget (c :: read) rest
      else if isPlain c then basicFrom budget (c :: read) rest
      else none

/-- Read the rest of a string without escapes on one line. -/
def literalFrom : (read : List Char) → Step String
  | _, [] => none
  | read, c :: rest =>
      if c = '\'' then some (String.ofList read.reverse, rest)
      else if isPlain c then literalFrom (c :: read) rest
      else none

/-- How many of the first five characters are the mark, up to another one. -/
def marks (mark : Char) (s : List Char) : Nat :=
  ((s.take 5).takeWhile (· == mark)).length

/-- Read the rest of a string over several lines. It ends with three marks, before
which up to two more may stand for themselves. -/
def blockFrom (mark : Char) (escapes : Bool) : (budget : Nat) → (read : List Char) → Step String
  | 0, _, _ => none
  | _ + 1, _, [] => none
  | budget + 1, read, c :: rest =>
      if c = mark then
        let count := marks mark (c :: rest)
        let after := (c :: rest).drop count
        if count < 3 then blockFrom mark escapes budget (List.replicate count mark ++ read) after
        else some (String.ofList (List.replicate (count - 3) mark ++ read).reverse, after)
      else if c = '\\' ∧ escapes then
        match newline? (trim rest) with
        | some after => blockFrom mark escapes budget read (afterBlankLines after)
        | none => do
            let (c, rest) ← escape rest
            blockFrom mark escapes budget (c :: read) rest
      else
        match newline? (c :: rest) with
        | some after => blockFrom mark escapes budget ('\n' :: read) after
        | none => if isPlain c then blockFrom mark escapes budget (c :: read) rest else none

/-- Read a string over several lines, from after its opening marks. A line break right
after them does not count. -/
def block (mark : Char) (escapes : Bool) : Step String := fun s =>
  let s := (newline? s).getD s
  blockFrom mark escapes (s.length + 1) [] s

/-- Read a string. -/
def string : Step String
  | '"' :: '"' :: '"' :: rest => block '"' true rest
  | '"' :: rest => basicFrom (rest.length + 1) [] rest
  | '\'' :: '\'' :: '\'' :: rest => block '\'' false rest
  | '\'' :: rest => literalFrom [] rest
  | _ => none

/-! ### Keys -/

/-- A character of a key without quotes. -/
def isKeyChar (c : Char) : Bool :=
  c.isAlphanum || c == '-' || c == '_'

/-- Read one part of a key, a string on one line or a word. -/
def keyPart : Step String
  | '"' :: rest => basicFrom (rest.length + 1) [] rest
  | '\'' :: rest => literalFrom [] rest
  | s =>
      let word := s.takeWhile isKeyChar
      if word = [] then none else some (String.ofList word, s.dropWhile isKeyChar)

/-- Read the parts of a key, with dots and blanks between them. -/
def keyParts : (budget : Nat) → Step (List String)
  | 0, _ => none
  | budget + 1, s => do
      let (part, rest) ← keyPart (trim s)
      match trim rest with
      | '.' :: rest => do
          let (parts, rest) ← keyParts budget rest
          some (part :: parts, rest)
      | rest => some ([part], rest)

/-- How deep a document may be nested, one less than this. -/
def nestingLimit : Nat := 80

/-- A key: the path to a table, and the last part. -/
structure Key where
  path : List String
  last : String
  deriving DecidableEq, Repr

/-- Read a key. -/
def key : Step Key := fun s => do
  let (parts, rest) ← keyParts (s.length + 1) s
  let last ← parts.getLast?
  if nestingLimit ≤ parts.length then none else some (⟨parts.dropLast, last⟩, rest)

end MessageExport.Toml
