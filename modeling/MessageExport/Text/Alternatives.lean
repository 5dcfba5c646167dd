/-!
# MessageExport.Text.Alternatives

**Lists of alternatives** in messages: the names that would have been accepted.
-/

namespace MessageExport.Text

/-- A name between backticks. -/
def ticked (name : String) : String :=
  "`" ++ name ++ "`"

/-- The names that are accepted: one, one or the other, or one of several. -/
def alternatives : List String → String
  | [] => "there are none"
  | [a] => ticked a
  | [a, b] => ticked a ++ " or " ++ ticked b
  | names => "one of " ++ String.intercalate ", " (names.map ticked)

end MessageExport.Text
