import MessageExport.Toml.Entries
import MessageExport.Toml.Scalar
/-!
# MessageExport.Toml.Document

Reading a **TOML document**: the values, and the lines that they stand in.

Arrays and inline tables may be nested to a limit; the reader counts down those
that may still be opened. The document is read line by line, and each line adds
to the entries under the header above it.
-/

namespace MessageExport.Toml

/-! ### Values -/

/-- Read a word. -/
def word (letters : List Char) (item : Item) : Step Item := fun s =>
  if s.take letters.length = letters then some (item, s.drop letters.length) else none

/-- Read the elements of an array that are left, up to its closing bracket. A comma may
stand after the last. -/
def elements (value : Step Item) : (budget : Nat) → Step (List Item)
  | 0, _ => none
  | budget + 1, s =>
      match gap s with
      | ']' :: rest => some ([], rest)
      | s => do
          let (item, rest) ← value s
          match gap rest with
          | ',' :: rest => do
              let (items, rest) ← elements value budget rest
              some (item :: items, rest)
          | ']' :: rest => some ([item], rest)
          | _ => none

/-- Read a key, an equals sign and a value. -/
def pair (value : Step Item) : Step (Key × Item) := fun s => do
  let (key, rest) ← key s
  let (item, rest) ← value (trim (← mark '=' (trim rest)))
  some ((key, item), rest)

/-- Read the pairs of an inline table that are left, onto its entries, up to its closing
brace. -/
def pairs (value : Step Item) : (budget : Nat) → Entries → Step Entries
  | 0, _, _ => none
  | budget + 1, entries, s => do
      let ((key, item), rest) ← pair value s
      let entries ← addValue key.last item key.path entries
      match trim rest with
      | ',' :: rest => pairs value budget entries rest
      | '}' :: rest => some (entries, rest)
      | _ => none

/-- Read an inline table, from after its opening brace. -/
def inlineTable (value : Step Item) : Step Entries := fun s =>
  match trim s with
  | '}' :: rest => some ([], rest)
  | s => pairs value (s.length + 1) [] s

/-- Read a value in which so many arrays and inline tables may be nested. -/
def value : (depth : Nat) → Step Item
  | depth, '[' :: rest =>
      match depth with
      | 0 => none
      | depth + 1 => do
          let (items, rest) ← elements (value depth) (rest.length + 1) rest
          some (.array items, rest)
  | depth, '{' :: rest =>
      match depth with
      | 0 => none
      | depth + 1 => do
          let (entries, rest) ← inlineTable (value depth) rest
          some (.table .inline entries, rest)
  | _, s =>
      match s with
      | '"' :: _ | '\'' :: _ => (string s).map fun (text, rest) => (.text text, rest)
      | 't' :: _ => word ['t', 'r', 'u', 'e'] (.boolean true) s
      | 'f' :: _ => word ['f', 'a', 'l', 's', 'e'] (.boolean false) s
      | 'i' :: _ => word ['i', 'n', 'f'] (.real (.infinite false)) s
      | 'n' :: _ => word ['n', 'a', 'n'] (.real .nan) s
      | s => numberOrMoment s

/-! ### Lines -/

/-- What has been read of a document. -/
structure Progress where
  entries : Entries := []
  /-- The path that the last header gave. -/
  path : List String := []

/-- Read the header of a table, from after its opening bracket. -/
def tableHeader (progress : Progress) : Step Progress := fun s => do
  let (key, rest) ← key s
  let rest ← mark ']' rest
  let entries ← within (openTable key.last) key.path progress.entries
  some (⟨entries, key.path ++ [key.last]⟩, rest)

/-- Read the header of an element of an array of tables, from after its opening
brackets. -/
def elementHeader (progress : Progress) : Step Progress := fun s => do
  let (key, rest) ← key s
  let rest ← mark ']' (← mark ']' rest)
  let entries ← within (openElement key.last) key.path progress.entries
  some (⟨entries, key.path ++ [key.last]⟩, rest)

/-- Read a line with a key and a value. -/
def pairLine (progress : Progress) : Step Progress := fun s => do
  let ((key, item), rest) ← pair (value (nestingLimit - 1)) s
  let entries ← within (addValue key.last item key.path) progress.path progress.entries
  some ({ progress with entries }, rest)

/-- Read a line, up to its end. -/
def line (progress : Progress) : Step Progress
  | '[' :: '[' :: rest => elementHeader progress rest
  | '[' :: rest => tableHeader progress rest
  | '#' :: rest => some (progress, '#' :: rest)
  | s =>
      match newline? s with
      | some _ => some (progress, s)
      | none => pairLine progress s

/-- Read the lines that are left. -/
def lines : (budget : Nat) → Progress → List Char → Option Entries
  | 0, _, _ => none
  | budget + 1, progress, s =>
      match trim s with
      | [] => some progress.entries
      | s => do
          let (progress, rest) ← line progress s
          let rest ← lineEnd? rest
          lines budget progress rest

/-- The entries of a document. A mark of the byte order may stand before them. -/
def parse? (text : String) : Option Entries :=
  let s := match text.toList with
    | '\uFEFF' :: rest => rest
    | s => s
  lines (s.length + 1) {} s

end MessageExport.Toml
