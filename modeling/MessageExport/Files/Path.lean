import MessageExport.Text.Quoted
/-!
# MessageExport.Files.Path

**Paths**: the bytes that name a place among files.

A path is cut at its separators into pieces. Empty pieces and single dots say
nothing, except for a dot that a relative path begins with; what is left are the
`components`. A path is never rewritten: `parent?` cuts the last component off
and keeps the rest as it was spelt.
-/

namespace MessageExport

/-- A path, as the bytes that it is spelt with. -/
structure Path where
  bytes : List UInt8
  deriving DecidableEq, Repr

/-- What stands between two separators of a path. -/
abbrev Piece := List UInt8

namespace Path

/-- The separator. -/
def slash : UInt8 := 0x2F

/-- The piece for a directory itself. -/
def dot : Piece := [0x2E]

/-- The piece for the directory above. -/
def dotDot : Piece := [0x2E, 0x2E]

/-- The path spelt by a text. -/
def ofString (s : String) : Path := ⟨Text.encode s⟩

/-- The path as it is written in a message. -/
def text (path : Path) : String := Text.decodeLossy path.bytes

/-- The path as it is written in diagnostics. -/
def detail (path : Path) : String := Text.quotedBytes path.bytes

/-- The path begins at the root. -/
def isAbsolute (path : Path) : Bool := path.bytes.head? == some slash

/-! ### Pieces -/

/-- Cut bytes at their separators. -/
def cut : List UInt8 → List Piece
  | [] => [[]]
  | b :: rest =>
      if b = slash then [] :: cut rest
      else
        match cut rest with
        | [] => [[b]]
        | piece :: pieces => (b :: piece) :: pieces

/-- Put pieces together again. -/
def paste : List Piece → List UInt8
  | [] => []
  | [piece] => piece
  | piece :: pieces => piece ++ slash :: paste pieces

theorem cut_ne_nil (bytes : List UInt8) : cut bytes ≠ [] := by
  cases bytes with
  | nil => exact List.cons_ne_nil _ _
  | cons b rest =>
    unfold cut
    split
    · exact List.cons_ne_nil _ _
    · split <;> exact List.cons_ne_nil _ _

/-- Cutting loses nothing. -/
@[simp] theorem paste_cut (bytes : List UInt8) : paste (cut bytes) = bytes := by
  induction bytes with
  | nil => rfl
  | cons b rest ih =>
    unfold cut
    split
    · rename_i h
      cases hcut : cut rest with
      | nil => exact absurd hcut (cut_ne_nil rest)
      | cons piece pieces =>
        rw [hcut] at ih
        simp [paste, ih, h]
    · cases hcut : cut rest with
      | nil => exact absurd hcut (cut_ne_nil rest)
      | cons piece pieces =>
        rw [hcut] at ih
        rw [← ih]
        cases pieces <;> rfl

/-- The piece names something. -/
def Significant (piece : Piece) : Prop := piece ≠ [] ∧ piece ≠ dot

instance (piece : Piece) : Decidable (Significant piece) :=
  inferInstanceAs (Decidable (_ ∧ _))

/-- What a path begins with: the root, a dot that stands for the working directory, or
neither. -/
inductive Opening where
  | root
  | current
  | none
  deriving DecidableEq, Repr

/-- The spelling of an opening. -/
def Opening.bytes : Opening → List UInt8
  | .root => [slash]
  | .current => dot
  | .none => []

/-- Split a path into its opening and the bytes after it. -/
def split (path : Path) : Opening × List UInt8 :=
  match path.bytes with
  | [] => (.none, [])
  | b :: rest =>
      if b = slash then (.root, rest)
      else if [b] = dot ∧ (rest = [] ∨ rest.head? = some slash) then (.current, rest)
      else (.none, b :: rest)

/-- The opening of a path. -/
def opening (path : Path) : Opening := path.split.1

/-- The pieces after the opening. -/
def pieces (path : Path) : List Piece := cut path.split.2

/-- Pieces up to the last one that names something. -/
def trimPieces (pieces : List Piece) : List Piece :=
  (pieces.reverse.dropWhile fun piece => !decide (Significant piece)).reverse

/-! ### Components -/

/-- A component of a path. -/
inductive Component where
  | root
  /-- The directory itself. -/
  | current
  /-- The directory above. -/
  | parent
  | name (piece : Piece)
  deriving DecidableEq, Repr

/-- The component that a piece stands for. -/
def Component.ofPiece (piece : Piece) : Component :=
  if piece = dotDot then .parent else .name piece

/-- The components of a path. -/
def components (path : Path) : List Component :=
  (match path.opening with
    | .root => [.root]
    | .current => [.current]
    | .none => []) ++
    (path.pieces.filter fun piece => decide (Significant piece)).map Component.ofPiece

/-- The name at the end of a path, if it ends in one. -/
def fileName? (path : Path) : Option Piece :=
  match path.components.getLast? with
  | some (.name piece) => some piece
  | _ => none

/-- The path without its last component. The root and the empty path have no parent. -/
def parent? (path : Path) : Option Path :=
  match trimPieces path.pieces with
  | [] =>
      match path.opening with
      | .current => some ⟨[]⟩
      | _ => none
  | piece :: pieces =>
      some ⟨path.opening.bytes ++ paste (trimPieces (piece :: pieces).dropLast)⟩

/-- The path of `name` in the directory `path`; an absolute name stands for itself. -/
def join (path name : Path) : Path :=
  if name.isAbsolute ∨ path.bytes = [] then name
  else if path.bytes.getLast? = some slash then ⟨path.bytes ++ name.bytes⟩
  else ⟨path.bytes ++ slash :: name.bytes⟩

/-- A path and the paths above it, down to `budget` of them. -/
def ancestorsWithin : (budget : Nat) → Path → List Path
  | 0, path => [path]
  | budget + 1, path =>
      match path.parent? with
      | none => [path]
      | some parent => path :: ancestorsWithin budget parent

/-- A path and the paths above it, innermost first. -/
def ancestors (path : Path) : List Path :=
  ancestorsWithin path.bytes.length path

/-- The moves from one directory to the next that a path stands for. Every single dot
is a move, which needs a directory, and so is a separator at the end. -/
def moves (path : Path) : List Component :=
  let pieces := (cut path.bytes).filter fun piece => piece ≠ []
  let body := pieces.map fun piece => if piece = dot then .current else Component.ofPiece piece
  if path.bytes.getLast? = some slash then body ++ [.current] else body

example : (ofString "a//b/./").fileName? = some [0x62] := by decide +kernel

example : (ofString "a//b/./").parent? = some (ofString "a") := by decide +kernel

example : (ofString "./a").parent? = some (ofString ".") := by decide +kernel

example : (ofString "/").parent? = none := by decide +kernel

end Path

end MessageExport
