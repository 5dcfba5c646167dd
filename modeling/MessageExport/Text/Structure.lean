import MessageExport.Text.Quoted
/-!
# MessageExport.Text.Structure

**Structures** in diagnostics: a name with what it holds, by position or by name, and
contents in a row.
-/

namespace MessageExport.Text

/-- A name with its contents by position, `Name(a, b)`. -/
def positional (name : String) (contents : List String) : String :=
  name ++ "(" ++ String.intercalate ", " contents ++ ")"

/-- A name with its contents by name, `Name { a: x, b: y }`. -/
def labelled (name : String) (contents : List (String × String)) : String :=
  name ++ " \x7b " ++ String.intercalate ", " (contents.map fun (label, x) => label ++ ": " ++ x) ++
    " \x7d"

/-- Contents in a row, `[a, b]`. -/
def listed (contents : List String) : String :=
  "[" ++ String.intercalate ", " contents ++ "]"

/-- Contents that may be missing, `Some(a)` or `None`. -/
def optional : Option String → String
  | some content => positional "Some" [content]
  | none => "None"

end MessageExport.Text
