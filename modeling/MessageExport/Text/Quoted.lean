import MessageExport.Text.Printable
import MessageExport.Text.Utf8
/-!
# MessageExport.Text.Quoted

**Quoted text** for diagnostics: a text between double quotes in which nothing
is invisible.

The double quote and the backslash are escaped, line breaks and the like by a
letter, every other character that cannot be shown by its number, `\u{1b}`. Bytes
that are no text are shown as such, `\xFF`, so the bytes of a path can be quoted
as well as a string can.
-/

namespace MessageExport.Text

/-- A character as it is shown between quotes. -/
def escaped (c : Char) : List Char :=
  match c with
  | '"' => ['\\', '"']
  | '\\' => ['\\', '\\']
  | '\n' => ['\\', 'n']
  | '\r' => ['\\', 'r']
  | '\t' => ['\\', 't']
  | '\x00' => ['\\', '0']
  | c => if isPrintable c then [c] else ['\\', 'u', '{'] ++ Nat.toDigits 16 c.toNat ++ ['}']

/-- A byte that belongs to no character as it is shown between quotes. -/
def escapedByte (b : UInt8) : List Char :=
  let digits := (Nat.toDigits 16 b.toNat).map Char.toUpper
  ['\\', 'x'] ++ List.replicate (2 - digits.length) '0' ++ digits

/-- A chunk as it is shown between quotes. -/
def Chunk.escaped : Chunk → List Char
  | .scalar c => Text.escaped c
  | .broken bytes => bytes.flatMap escapedByte

/-- A text between quotes. -/
def quoted (s : String) : String :=
  String.ofList ('"' :: (s.toList.flatMap escaped ++ ['"']))

/-- Bytes between quotes. -/
def quotedBytes (bytes : List UInt8) : String :=
  String.ofList ('"' :: ((chunks bytes).flatMap Chunk.escaped ++ ['"']))

example : quoted "it's \"é\"\n\x1b" = "\"it's \\\"é\\\"\\n\\u\x7b1b\x7d\"" := by decide +kernel

example : quotedBytes [0x61, 0xFF, 0x0A] = "\"a\\xFF\\n\"" := by decide +kernel

end MessageExport.Text
