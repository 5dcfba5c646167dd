import MessageExport.Files.Path
/-!
# MessageExport.Files.Tree

**Trees of files**: a file with its contents, or a directory of named trees.
-/

namespace MessageExport

/-- A file or a directory. -/
inductive FileTree where
  | file (contents : List UInt8)
  | directory (entries : List (Piece × FileTree))

namespace FileTree

/-- The directory without entries. -/
def empty : FileTree := directory []

instance : Inhabited FileTree := ⟨empty⟩

/-- The tree is a directory. -/
def isDirectory : FileTree → Bool
  | file _ => false
  | directory _ => true

/-- What a list of entries holds under a name. -/
def named? (name : Piece) : List (Piece × FileTree) → Option FileTree
  | [] => none
  | (n, tree) :: rest => if n = name then some tree else named? name rest

/-- Put a tree under a name, over what was there. -/
def setEntry (name : Piece) (tree : FileTree) :
    List (Piece × FileTree) → List (Piece × FileTree)
  | [] => [(name, tree)]
  | (n, old) :: rest =>
      if n = name then (name, tree) :: rest else (n, old) :: setEntry name tree rest

/-- The entries of a directory; a file has none. -/
def entries : FileTree → List (Piece × FileTree)
  | file _ => []
  | directory entries => entries

/-- The tree at the end of a way of names. -/
def find? : FileTree → List Piece → Option FileTree
  | tree, [] => some tree
  | tree, name :: names => (named? name tree.entries).bind fun child => find? child names

/-- Put a tree at the end of a way of names, making the directories on the way. What
is on the way and no directory stays. -/
def put (new : FileTree) : List Piece → FileTree → FileTree
  | [], _ => new
  | _ :: _, file contents => file contents
  | name :: names, directory entries =>
      directory (setEntry name (put new names ((named? name entries).getD empty)) entries)

mutual

/-- The files of a tree, each by the names on the way to it. -/
def files : FileTree → List (List Piece)
  | file _ => [[]]
  | directory entries => filesBelow entries

/-- The files below a list of entries. -/
def filesBelow : List (Piece × FileTree) → List (List Piece)
  | [] => []
  | (name, tree) :: rest => tree.files.map (name :: ·) ++ filesBelow rest

end

end FileTree

end MessageExport
