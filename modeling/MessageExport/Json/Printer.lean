import MessageExport.Json.Tree
/-!
# MessageExport.Json.Printer

Writing **JSON text**.

There is one printer. A `Layout` says which blanks it puts between tokens: none
in compact text, line breaks and indentation in pretty text. What stands between
the blanks is the same in every layout.
-/

namespace MessageExport.Json

/-- Where blanks are put between the tokens of a text. -/
structure Layout where
  /-- What stands before an element, a member or a closing bracket, by depth. -/
  lineBreak : Nat → List Char
  /-- What stands after the colon of a member. -/
  afterColon : List Char

namespace Layout

/-- No blanks at all. -/
def compact : Layout := ⟨fun _ => [], []⟩

/-- Each element and member on a line of its own, indented by two blanks a level. -/
def pretty : Layout := ⟨fun depth => '\n' :: List.replicate (2 * depth) ' ', [' ']⟩

end Layout

/-- A character inside a string. -/
def escapedChar (c : Char) : List Char :=
  match c with
  | '"' => ['\\', '"']
  | '\\' => ['\\', '\\']
  | '\x08' => ['\\', 'b']
  | '\t' => ['\\', 't']
  | '\n' => ['\\', 'n']
  | '\x0c' => ['\\', 'f']
  | '\r' => ['\\', 'r']
  | c =>
      if c < ' ' then
        ['\\', 'u', '0', '0', Nat.digitChar (c.toNat / 16), Nat.digitChar (c.toNat % 16)]
      else [c]

/-- A string between its quotes. -/
def stringText (s : String) : List Char :=
  '"' :: (s.toList.flatMap escapedChar ++ ['"'])

mutual

/-- The text of a tree at a depth. -/
def treeText (layout : Layout) (depth : Nat) : Tree → List Char
  | .null => ['n', 'u', 'l', 'l']
  | .boolean true => ['t', 'r', 'u', 'e']
  | .boolean false => ['f', 'a', 'l', 's', 'e']
  | .number n => n.text
  | .text s => stringText s
  | .array [] => ['[', ']']
  | .array (tree :: more) =>
      '[' :: (layout.lineBreak (depth + 1) ++ treeText layout (depth + 1) tree ++
        elementsText layout (depth + 1) more ++ layout.lineBreak depth ++ [']'])
  | .object [] => ['{', '}']
  | .object ((name, tree) :: more) =>
      '{' :: (layout.lineBreak (depth + 1) ++ stringText name ++ ':' :: layout.afterColon ++
        treeText layout (depth + 1) tree ++ membersText layout (depth + 1) more ++
        layout.lineBreak depth ++ ['}'])

/-- The text of the elements after the first. -/
def elementsText (layout : Layout) (depth : Nat) : List Tree → List Char
  | [] => []
  | tree :: more =>
      ',' :: (layout.lineBreak depth ++ treeText layout depth tree ++
        elementsText layout depth more)

/-- The text of the members after the first. -/
def membersText (layout : Layout) (depth : Nat) : List (String × Tree) → List Char
  | [] => []
  | (name, tree) :: more =>
      ',' :: (layout.lineBreak depth ++ stringText name ++ ':' :: layout.afterColon ++
        treeText layout depth tree ++ membersText layout depth more)

end

/-- The text of a tree. -/
def Tree.render (layout : Layout) (tree : Tree) : String :=
  String.ofList (treeText layout 0 tree)

/-- The text of a tree without blanks. -/
def Tree.compact (tree : Tree) : String := tree.render .compact

/-- The text of a tree over several lines. -/
def Tree.pretty (tree : Tree) : String := tree.render .pretty

end MessageExport.Json
