import MessageExport.Json.Reader.Tree
/-!
# MessageExport.Proofs.Json.Source

The **spelling** of a JSON text and its **content**.

A `Source` is a JSON text taken apart by the grammar of RFC 8259: every blank between
tokens, every escape and every digit is kept, so `Source.text` is the text itself. Its
`Source.content` is what a reader can find in it: blanks and the spelling of strings are
gone, and a string or a number that has no value is left open. Sources are not limited
in depth, since values that nobody needs are passed over at any depth.
-/

namespace MessageExport.Json

open MessageExport.Text (isDigit hexDigit?)

/-! ### Blanks -/

/-- A blank that may stand between tokens. -/
abbrev Blank := { c : Char // isBlank c = true }

/-- The text of blanks. -/
def blanksText (blanks : List Blank) : List Char :=
  blanks.map Subtype.val

/-- The blanks around a token or a value. -/
structure Spacing where
  before : List Blank
  after : List Blank

/-! ### Strings -/

/-- A hexadecimal digit, in either case. -/
abbrev HexDigit := { c : Char // (hexDigit? c).isSome = true }

/-- The value of a hexadecimal digit. -/
def HexDigit.value (d : HexDigit) : Nat :=
  (hexDigit? d.val).get d.property

/-- Four hexadecimal digits. -/
structure HexQuad where
  a : HexDigit
  b : HexDigit
  c : HexDigit
  d : HexDigit

namespace HexQuad

/-- The four digits. -/
def text (q : HexQuad) : List Char := [q.a.val, q.b.val, q.c.val, q.d.val]

/-- The number that the four digits write. -/
def value (q : HexQuad) : Nat :=
  ((q.a.value * 16 + q.b.value) * 16 + q.c.value) * 16 + q.d.value

end HexQuad

/-- A part of a string. -/
inductive TextPart where
  /-- A character that stands for itself. -/
  | plain (c : Char) (isPlain : c ≠ '"' ∧ c ≠ '\\' ∧ ¬ c < ' ')
  /-- A backslash and a letter. -/
  | short (letter : Char) (isShort : (shortEscape? letter).isSome = true)
  /-- A backslash, a `u` and four hexadecimal digits. -/
  | unit (quad : HexQuad)

namespace TextPart

/-- The text of a part. -/
def text : TextPart → List Char
  | plain c _ => [c]
  | short letter _ => ['\\', letter]
  | unit quad => '\\' :: 'u' :: quad.text

end TextPart

/-- The text of the parts of a string. -/
def partsText (parts : List TextPart) : List Char :=
  parts.flatMap TextPart.text

/-- The characters that parts stand for. Half a surrogate pair stands for none. -/
def partsValue? : List TextPart → Option (List Char)
  | [] => some []
  | .plain c _ :: parts => (partsValue? parts).map (c :: ·)
  | .short letter h :: parts => (partsValue? parts).map ((shortEscape? letter).get h :: ·)
  | .unit quad :: parts =>
      if isTrailing quad.value then none
      else if isLeading quad.value then
        match parts with
        | .unit second :: parts =>
            if isTrailing second.value then
              (partsValue? parts).map (pairChar quad.value second.value :: ·)
            else none
        | _ => none
      else (partsValue? parts).map (Char.ofNat quad.value :: ·)

/-- The string that parts stand for. -/
def partsString? (parts : List TextPart) : Option String :=
  (partsValue? parts).map String.ofList

/-! ### Numbers -/

/-- A decimal digit. -/
abbrev Digit := { c : Char // isDigit c = true }

/-- The text of digits. -/
def digitsText (digits : List Digit) : List Char :=
  digits.map Subtype.val

/-- The exponent of a number. -/
structure Exponent where
  mark : Char
  sign : List Char
  first : Digit
  more : List Digit
  mark_eq : mark = 'e' ∨ mark = 'E'
  sign_eq : sign = [] ∨ sign = ['+'] ∨ sign = ['-']

namespace Exponent

/-- The text of an exponent. -/
def text (e : Exponent) : List Char :=
  e.mark :: (e.sign ++ e.first.val :: digitsText e.more)

end Exponent

/-- A number as it is written. -/
structure Numeral where
  isNegative : Bool
  first : Digit
  more : List Digit
  fraction : Option (Digit × List Digit) := none
  exponent : Option Exponent := none
  /-- No digit follows a leading zero. -/
  zero_alone : first.val = '0' → more = []

namespace Numeral

/-- The text of a fraction. -/
def fractionText : Option (Digit × List Digit) → List Char
  | none => []
  | some (first, more) => '.' :: first.val :: digitsText more

/-- The text of an exponent, if there is one. -/
def exponentText (e : Option Exponent) : List Char :=
  e.elim [] Exponent.text

/-- The text after the whole part of a number. -/
def tail (n : Numeral) : List Char :=
  fractionText n.fraction ++ exponentText n.exponent

/-- The text of a number after its sign. -/
def body (n : Numeral) : List Char :=
  n.first.val :: (digitsText n.more ++ n.tail)

/-- The text of a number. -/
def text (n : Numeral) : List Char :=
  if n.isNegative then '-' :: n.body else n.body

/-- The number that is written, if it is in range. -/
def value? (n : Numeral) : Option Number :=
  (number n.isNegative n.body).toOption.map Prod.fst

end Numeral

/-! ### Values -/

/-- A value that is neither an array nor an object. -/
inductive Scalar where
  | null
  | boolean (value : Bool)
  | number (numeral : Numeral)
  | text (parts : List TextPart)

/-- The text of a string between its quotes. -/
def quotedParts (parts : List TextPart) : List Char :=
  '"' :: (partsText parts ++ ['"'])

namespace Scalar

/-- The text of a scalar. -/
def spelling : Scalar → List Char
  | null => ['n', 'u', 'l', 'l']
  | boolean true => ['t', 'r', 'u', 'e']
  | boolean false => ['f', 'a', 'l', 's', 'e']
  | number numeral => numeral.text
  | text parts => quotedParts parts

end Scalar

/-- The name of a member as it is written, with the blanks before it and before its
colon. -/
structure MemberName where
  around : Spacing
  parts : List TextPart

/-- A JSON value as it is written. -/
inductive Source where
  | scalar (around : Spacing) (value : Scalar)
  /-- An array; `inner` are the blanks after its opening bracket. -/
  | array (around : Spacing) (inner : List Blank) (elements : List Source)
  /-- An object; `inner` are the blanks after its opening brace. -/
  | object (around : Spacing) (inner : List Blank) (members : List (MemberName × Source))

namespace MemberName

/-- The text of a name and its colon. -/
def text (name : MemberName) : List Char :=
  blanksText name.around.before ++ quotedParts name.parts ++ blanksText name.around.after ++ [':']

end MemberName

namespace Source

/-- The blanks around a value. -/
def around : Source → Spacing
  | scalar around _ => around
  | array around _ _ => around
  | object around _ _ => around

mutual

/-- The text of a value without the blanks around it. -/
def core : Source → List Char
  | scalar _ value => value.spelling
  | array _ inner elements => '[' :: (blanksText inner ++ listText true elements ++ [']'])
  | object _ inner members => '{' :: (blanksText inner ++ membersText true members ++ ['}'])

/-- The text of the elements of an array, or of those after the first. -/
def listText (first : Bool) : List Source → List Char
  | [] => []
  | element :: more =>
      (if first then [] else [',']) ++ (blanksText element.around.before ++ element.core ++
        blanksText element.around.after) ++ listText false more

/-- The text of the members of an object, or of those after the first. -/
def membersText (first : Bool) : List (MemberName × Source) → List Char
  | [] => []
  | (name, value) :: more =>
      (if first then [] else [',']) ++ name.text ++ (blanksText value.around.before ++
        value.core ++ blanksText value.around.after) ++ membersText false more

end

/-- The text of a value. -/
def text (s : Source) : List Char :=
  blanksText s.around.before ++ s.core ++ blanksText s.around.after

end Source

/-! ### Contents -/

/-- What a JSON text says. A string that holds half a surrogate pair has no value, and
neither has a number out of range. -/
inductive Content where
  | null
  | boolean (value : Bool)
  | number (value : Option Number)
  | text (value : Option String)
  | array (elements : List Content)
  | object (members : List (Option String × Content))

namespace Source

/-- What a scalar says. -/
def scalarContent : Scalar → Content
  | .null => .null
  | .boolean value => .boolean value
  | .number numeral => .number numeral.value?
  | .text parts => .text (partsString? parts)

mutual

/-- What a value says. -/
def content : Source → Content
  | scalar _ value => scalarContent value
  | array _ _ elements => .array (contents elements)
  | object _ _ members => .object (memberContents members)

/-- What the elements of an array say. -/
def contents : List Source → List Content
  | [] => []
  | element :: more => element.content :: contents more

/-- What the members of an object say, each under its name. -/
def memberContents : List (MemberName × Source) → List (Option String × Content)
  | [] => []
  | (name, value) :: more => (partsString? name.parts, value.content) :: memberContents more

end

end Source

namespace Content

/-- A member by its name, if that has a value. -/
def memberOf {α : Type} (value : Content → Option α) (member : Option String × Content) :
    Option (String × α) :=
  member.1.bind fun name => (value member.2).map fun value => (name, value)

/-- The tree of a content that has nothing open, if it fits into so many containers. -/
def tree? : (depth : Nat) → Content → Option Tree
  | _, null => some .null
  | _, boolean value => some (.boolean value)
  | _, number value => value.map .number
  | _, text value => value.map .text
  | 0, array _ => none
  | 0, object _ => none
  | depth + 1, array elements => (elements.mapM (tree? depth)).map .array
  | depth + 1, object members => (members.mapM (memberOf (tree? depth))).map .object

end Content

end MessageExport.Json
