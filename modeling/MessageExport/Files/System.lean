import MessageExport.Files.Fault
import MessageExport.Files.Tree
/-!
# MessageExport.Files.System

The **file system**: a tree of files and the directory that relative paths start in.

A path is followed move by move, and every move but the last has to end in a
directory. Files can be read, created and written at their end, and directories made;
nothing is ever removed or overwritten.
-/

namespace MessageExport

/-- A tree of files and a working directory in it. -/
structure FileSystem where
  root : FileTree
  /-- The names on the way to the working directory. -/
  workingDirectory : List Piece

namespace FileSystem

/-- The tree at the end of a way of names. -/
def at? (fs : FileSystem) (way : List Piece) : Option FileTree :=
  fs.root.find? way

/-- Where a path starts. -/
def start (fs : FileSystem) (path : Path) : List Piece :=
  if path.isAbsolute then [] else fs.workingDirectory

/-- A name has at most so many bytes. -/
def maxNameLength : Nat := 255

/-- A path has at most so many bytes. -/
def maxPathLength : Nat := 4095

/-- Refuse paths that can name nothing, whatever files there are. -/
def accept (path : Path) : Except IoFault Unit :=
  if 0 ∈ path.bytes then .error .zeroByte
  else if path.bytes = [] then .error (.system .notFound)
  else if maxPathLength < path.bytes.length then .error (.system .nameTooLong)
  else .ok ()

/-- Refuse names that are too long. -/
def acceptName (piece : Piece) : Except IoFault Unit :=
  if maxNameLength < piece.length then .error (.system .nameTooLong) else .ok ()

/-- The directory at the end of a way of names. -/
def directoryAt (fs : FileSystem) (way : List Piece) :
    Except IoFault (List (Piece × FileTree)) :=
  match fs.at? way with
  | none => .error (.system .notFound)
  | some (.file _) => .error (.system .notDirectory)
  | some (.directory entries) => .ok entries

/-- Follow moves from the place at the end of a way. -/
def follow (fs : FileSystem) : (way : List Piece) → List Path.Component →
    Except IoFault (List Piece)
  | way, [] => .ok way
  | way, move :: moves => do
      let entries ← fs.directoryAt way
      match move with
      | .root => follow fs way moves
      | .current => follow fs way moves
      | .parent => follow fs way.dropLast moves
      | .name piece => do
          acceptName piece
          if (FileTree.named? piece entries).isSome then follow fs (way ++ [piece]) moves
          else .error (.system .notFound)

/-- The way to what a path names. -/
def locate (fs : FileSystem) (path : Path) : Except IoFault (List Piece) := do
  accept path
  fs.follow (fs.start path) path.moves

/-- What a path names. -/
def lookup (fs : FileSystem) (path : Path) : Option FileTree :=
  match fs.locate path with
  | .ok way => fs.at? way
  | .error _ => none

/-- The path names something. -/
def hasPath (fs : FileSystem) (path : Path) : Bool :=
  (fs.lookup path).isSome

/-- The path names a directory. -/
def hasDirectory (fs : FileSystem) (path : Path) : Bool :=
  match fs.lookup path with
  | some tree => tree.isDirectory
  | none => false

/-- The text of a file. -/
def readText (fs : FileSystem) (path : Path) : Except IoFault String := do
  let way ← fs.locate path
  match fs.at? way with
  | none => .error (.system .notFound)
  | some (.directory _) => .error (.system .isDirectory)
  | some (.file contents) =>
      match Text.decode? contents with
      | none => .error .notText
      | some text => .ok text

/-! ### Changes -/

/-- The directory that holds the last name of a path, and that name. A path that ends
in dots names a directory that exists already. -/
def place (fs : FileSystem) (path : Path) : Except IoFault (List Piece × Piece) := do
  accept path
  match path.moves.reverse with
  | [] => .error (.system .alreadyExists)
  | last :: before => do
      let way ← fs.follow (fs.start path) before.reverse
      let _ ← fs.directoryAt way
      match last with
      | .name piece => do
          acceptName piece
          .ok (way, piece)
      | _ => .error (.system .alreadyExists)

/-- The file system with a tree put at the end of a way. -/
def put (fs : FileSystem) (way : List Piece) (tree : FileTree) : FileSystem :=
  { fs with root := tree.put way fs.root }

/-- Make a directory, which must not exist, in one that does. -/
def makeDirectory (fs : FileSystem) (path : Path) : Except IoFault FileSystem := do
  let (way, name) ← fs.place path
  match fs.at? (way ++ [name]) with
  | some _ => .error (.system .alreadyExists)
  | none => .ok (fs.put (way ++ [name]) .empty)

/-- Try to make the innermost of a list of directories, and go on to the next as long
as the one it would lie in is missing. What is left are the missing ones, innermost
first. -/
def makeInnermost (fs : FileSystem) : List Path →
    Except IoFault (FileSystem × List Path)
  | [] => .ok (fs, [])
  | path :: outer =>
      match fs.makeDirectory path with
      | .ok made => .ok (made, [])
      | .error (.system .notFound) => do
          let (made, missing) ← makeInnermost fs outer
          .ok (made, path :: missing)
      | .error fault =>
          if fault = .system .alreadyExists ∧ fs.hasDirectory path then .ok (fs, [])
          else .error fault

/-- Make directories one after another; those that exist are let be. -/
def makeEach (fs : FileSystem) : List Path → FileSystem × Except IoFault Unit
  | [] => (fs, .ok ())
  | path :: rest =>
      match fs.makeDirectory path with
      | .ok made => makeEach made rest
      | .error fault =>
          if fault = .system .alreadyExists ∧ fs.hasDirectory path then makeEach fs rest
          else (fs, .error fault)

/-- Make a directory and those that it lies in. The whole path is tried first, then the
missing ones are made from the outermost in. -/
def makeDirectories (fs : FileSystem) (path : Path) : FileSystem × Except IoFault Unit :=
  let own := path.ancestors.filter fun ancestor => ancestor.parent?.isSome
  match fs.makeInnermost own with
  | .error fault => (fs, .error fault)
  | .ok (made, missing) => made.makeEach missing.reverse

/-- Make sure that a path names a file, with nothing in it if there is none yet. -/
def ensureFile (fs : FileSystem) (path : Path) : Except IoFault FileSystem :=
  match fs.lookup path with
  | some (.file _) => .ok fs
  | some (.directory _) => .error (.system .isDirectory)
  | none => do
      let (way, name) ← fs.place path
      .ok (fs.put (way ++ [name]) (.file []))

/-- Write bytes at the end of the file that a path names, if it names one. -/
def append (fs : FileSystem) (path : Path) (bytes : List UInt8) : FileSystem :=
  match fs.locate path with
  | .error _ => fs
  | .ok way =>
      match fs.at? way with
      | some (.file contents) => fs.put way (.file (contents ++ bytes))
      | _ => fs

end FileSystem

end MessageExport
