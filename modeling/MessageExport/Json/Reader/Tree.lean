import MessageExport.Json.Reader.Container
import MessageExport.Json.Reader.Number
/-!
# MessageExport.Json.Reader.Tree

Reading **any JSON value** as a tree.

Objects and arrays may be nested to `maxDepth`; the reader counts down the
containers that may still be opened.
-/

namespace MessageExport.Json

open MessageExport.Text (isDigit)

/-- How many containers may be open at once. -/
def maxDepth : Nat := 127

/-- Read a value that is neither an array nor an object, without blanks before it. -/
def scalar : Step Tree
  | [] => .error (Fault.valueCutOff.here [])
  | 'n' :: rest => do
      let rest ← word ['u', 'l', 'l'] rest
      .ok (.null, rest)
  | 't' :: rest => do
      let rest ← word ['r', 'u', 'e'] rest
      .ok (.boolean true, rest)
  | 'f' :: rest => do
      let rest ← word ['a', 'l', 's', 'e'] rest
      .ok (.boolean false, rest)
  | '"' :: rest => do
      let (value, rest) ← string rest
      .ok (.text value, rest)
  | '-' :: rest => do
      let (value, rest) ← number true rest
      .ok (.number value, rest)
  | c :: rest =>
      if isDigit c then do
        let (value, rest) ← number false (c :: rest)
        .ok (.number value, rest)
      else .error (Fault.noValue.byteAfter (c :: rest))

/-- Read a member onto the members gathered so far, last first. -/
def treeMember (value : Step Tree) (gathered : List (String × Tree)) (name : String) :
    Step (List (String × Tree)) := fun s => do
  let rest ← colon s
  let (tree, rest) ← value rest
  .ok ((name, tree) :: gathered, rest)

/-- Read a value in which so many containers may be nested. -/
def tree (depth : Nat) : Step Tree := fun s =>
  match trim s with
  | '[' :: rest =>
      match depth with
      | 0 => .error (Fault.tooDeep.byteAfter ('[' :: rest))
      | depth + 1 => do
          let (values, rest) ← elements id (tree depth) (rest.length + 1) true rest
          .ok (.array values, rest.drop 1)
  | '{' :: rest =>
      match depth with
      | 0 => .error (Fault.tooDeep.byteAfter ('{' :: rest))
      | depth + 1 => do
          let (gathered, rest) ← members id (treeMember (tree depth)) (rest.length + 1) true [] rest
          .ok (.object gathered.reverse, rest.drop 1)
  | s => scalar s

end MessageExport.Json
