/-!
# MessageExport.Text.Utf8

**UTF-8** of bytes that may be broken.

Bytes fall into chunks: characters, and between them *broken* chunks, each the
longest run of bytes that could still have begun a character but did not become
one. `decode?` accepts bytes without broken chunks, `decodeLossy` puts the
replacement character in the place of each of them, and whoever has to show the
bytes themselves finds them in the chunk.
-/

namespace MessageExport.Text

/-- What stands next in a run of bytes. -/
inductive Chunk where
  /-- A character. -/
  | scalar (c : Char)
  /-- Bytes that are no character. -/
  | broken (bytes : List UInt8)
  deriving DecidableEq, Repr

namespace Utf8

/-- A character of which some bytes were read. -/
structure Pending where
  /-- The bytes read, last first. -/
  seen : List UInt8
  /-- The bits that they carry. -/
  bits : Nat
  /-- How many bytes are missing. -/
  owed : Nat
  /-- The least byte that may come next. -/
  low : UInt8
  /-- The greatest byte that may come next. -/
  high : UInt8

/-- The character that a first byte begins, unless it is a character already or
begins none. Bounds on the second byte keep out long forms, surrogates and
numbers past the last character. -/
def begin? (b : UInt8) : Option Pending :=
  let pending (owed : Nat) (bits : UInt8) (low high : UInt8) : Option Pending :=
    some ⟨[b], bits.toNat, owed, low, high⟩
  if 0xC2 ≤ b ∧ b ≤ 0xDF then pending 1 (b - 0xC0) 0x80 0xBF
  else if b = 0xE0 then pending 2 0 0xA0 0xBF
  else if b = 0xED then pending 2 0xD 0x80 0x9F
  else if 0xE1 ≤ b ∧ b ≤ 0xEF then pending 2 (b - 0xE0) 0x80 0xBF
  else if b = 0xF0 then pending 3 0 0x90 0xBF
  else if 0xF1 ≤ b ∧ b ≤ 0xF3 then pending 3 (b - 0xF0) 0x80 0xBF
  else if b = 0xF4 then pending 3 4 0x80 0x8F
  else none

/-- Take up a byte between characters: the chunk that it ends, or what it begins. -/
def start (b : UInt8) : Option Chunk × Option Pending :=
  if b < 0x80 then (some (.scalar (Char.ofNat b.toNat)), none)
  else
    match begin? b with
    | some pending => (none, some pending)
    | none => (some (.broken [b]), none)

/-- Take up a byte inside a character: the chunks that it ends, or what is then pending. -/
def step (pending : Option Pending) (b : UInt8) : List Chunk × Option Pending :=
  match pending with
  | none => ((start b).1.toList, (start b).2)
  | some p =>
      if p.low ≤ b ∧ b ≤ p.high then
        let bits := p.bits * 64 + b.toNat % 64
        if p.owed ≤ 1 then ([.scalar (Char.ofNat bits)], none)
        else ([], some ⟨b :: p.seen, bits, p.owed - 1, 0x80, 0xBF⟩)
      else (.broken p.seen.reverse :: (start b).1.toList, (start b).2)

/-- Split the rest of the bytes, with a character pending. -/
def chunksFrom : Option Pending → List UInt8 → List Chunk
  | none, [] => []
  | some p, [] => [.broken p.seen.reverse]
  | pending, b :: rest => (step pending b).1 ++ chunksFrom (step pending b).2 rest

end Utf8

/-- The chunks of a run of bytes. -/
def chunks (bytes : List UInt8) : List Chunk :=
  Utf8.chunksFrom none bytes

/-- The character of a chunk, unless it is broken. -/
def Chunk.scalar? : Chunk → Option Char
  | .scalar c => some c
  | .broken _ => none

/-- The text of bytes without broken chunks. -/
def decode? (bytes : List UInt8) : Option String :=
  ((chunks bytes).mapM Chunk.scalar?).map String.ofList

/-- The text of bytes, with a replacement character for each broken chunk. -/
def decodeLossy (bytes : List UInt8) : String :=
  String.ofList ((chunks bytes).map fun chunk => chunk.scalar?.getD '\uFFFD')

/-- The bytes of a text. -/
def encode (s : String) : List UInt8 :=
  s.toList.flatMap String.utf8EncodeChar

example : chunks [0x41, 0xC3, 0xA9, 0xF0, 0x9F, 0x98, 0x80] =
    [.scalar 'A', .scalar 'é', .scalar '😀'] := by decide

example : chunks [0xF0, 0x9F, 0x41, 0xED, 0xA0, 0x80] =
    [.broken [0xF0, 0x9F], .scalar 'A', .broken [0xED], .broken [0xA0], .broken [0x80]] := by
  decide

end MessageExport.Text
