import Mathlib.Data.List.Basic
import MessageExport.Files.System
/-!
# MessageExport.Proofs.Files.Sight

**What is seen at a place among files**: nothing, a directory, or a file with its
contents.

Following a path only looks at the places that it passes, and only at whether they are
directories. So a file that is written, replaced or taken away at one place leaves the
sight of every path alone that does not lead to that very place
(`AlikeElsewhere.sightOf_eq`), even where a path would have to pass through it: a file
stops a path just as a missing name does.

## Shape of the proofs

What is put into a tree is seen by `sightAt_put`, an induction along the way to its directory.
`follow_cons_eq_ok` says of one move when it leads on, in terms of sights only. Both together
make `AlikeElsewhere.follow`, by induction along the moves: a path either ends at the place or
never depends on it, since nothing leads on from a place that is no directory, neither before
nor after.

`AlikeElsewhere` is symmetric, so a path that leads to another place afterwards led there before, and
one direction suffices for each proof.
-/

namespace MessageExport

/-- What is seen at one place. -/
inductive Sight where
  | nothing
  | directory
  | file (contents : List UInt8)
  deriving DecidableEq, Repr

/-- What is seen where a tree is, or none. -/
def Sight.of : Option FileTree → Sight
  | none => .nothing
  | some (.directory _) => .directory
  | some (.file contents) => .file contents

/-- Nothing is seen exactly where no tree is. -/
theorem Sight.of_eq_nothing_iff {tree : Option FileTree} : of tree = .nothing ↔ tree = none := by
  cases tree with
  | none => simp [of]
  | some tree => cases tree <;> simp [of]

theorem Sight.of_eq_file_iff {tree : Option FileTree} {contents : List UInt8} :
    of tree = .file contents ↔ tree = some (.file contents) := by
  cases tree with
  | none => simp [of]
  | some tree => cases tree <;> simp [of]

theorem Sight.ne_nothing_of_directory {sight : Sight} (h : sight = .directory) :
    sight ≠ .nothing := by
  rw [h]
  exact Sight.noConfusion

theorem Sight.ne_nothing_of_file {sight : Sight} {contents : List UInt8}
    (h : sight = .file contents) : sight ≠ .nothing := by
  rw [h]
  exact Sight.noConfusion

namespace FileTree

/-- What is seen of a tree at the end of a way of names. -/
def sightAt (tree : FileTree) (way : List Piece) : Sight :=
  Sight.of (tree.find? way)

/-- The text of a file; a directory has none. -/
def text : FileTree → Except IoFault String
  | directory _ => .error (.system .isDirectory)
  | file contents =>
      match Text.decode? contents with
      | none => .error .notText
      | some text => .ok text

/-- What is seen behind a name is seen in the entry of that name. -/
theorem sightAt_cons (tree : FileTree) (name : Piece) (way : List Piece) :
    tree.sightAt (name :: way) =
      (named? name tree.entries).elim .nothing fun child => child.sightAt way := by
  unfold sightAt
  rw [find?]
  cases named? name tree.entries <;> rfl

/-- To go along a way is to go along its first part and on from there. -/
theorem find?_append (way rest : List Piece) (tree : FileTree) :
    tree.find? (way ++ rest) = (tree.find? way).bind fun inner => inner.find? rest := by
  induction way generalizing tree with
  | nil => rfl
  | cons first way ih =>
      rw [List.cons_append, find?, find?, Option.bind_assoc]
      exact Option.bind_congr fun child _ => ih child

/-- Nothing is below a place that is no directory. -/
theorem sightAt_below {tree : FileTree} {way : List Piece} (h : tree.sightAt way ≠ .directory)
    (name : Piece) (rest : List Piece) : tree.sightAt (way ++ name :: rest) = .nothing := by
  unfold sightAt at h ⊢
  rw [find?_append]
  cases hfind : tree.find? way with
  | none => rfl
  | some inner =>
      cases inner with
      | directory entries => rw [hfind] at h; exact absurd rfl h
      | file contents => rfl

/-- An entry that is set is found by its name, and every other one as before. -/
theorem named?_setEntry (name other : Piece) (tree : FileTree)
    (entries : List (Piece × FileTree)) :
    named? other (setEntry name tree entries) =
      if name = other then some tree else named? other entries := by
  induction entries with
  | nil => rfl
  | cons entry rest ih =>
      obtain ⟨first, old⟩ := entry
      unfold setEntry
      by_cases hfirst : first = name
      · subst hfirst
        rw [if_pos rfl, named?, named?]
        by_cases hother : first = other
        · rw [if_pos hother, if_pos hother]
        · rw [if_neg hother, if_neg hother, if_neg hother]
      · rw [if_neg hfirst, named?, named?, ih]
        by_cases hother : first = other
        · have hname : name ≠ other := fun h => hfirst (hother.trans h.symm)
          rw [if_pos hother, if_pos hother, if_neg hname]
        · rw [if_neg hother, if_neg hother]

/-- In a directory with one entry set, something new is seen at that entry and below it only. -/
theorem sightAt_setEntry (name first : Piece) (tree : FileTree)
    (entries : List (Piece × FileTree)) (way : List Piece) :
    (directory (setEntry name tree entries)).sightAt (first :: way) =
      if name = first then tree.sightAt way else (directory entries).sightAt (first :: way) := by
  rw [sightAt_cons, sightAt_cons, FileTree.entries, FileTree.entries, named?_setEntry]
  by_cases hfirst : name = first
  · rw [if_pos hfirst, if_pos hfirst]
    rfl
  · rw [if_neg hfirst, if_neg hfirst]

/-- A tree without entries, a file or an empty directory, that is put into a directory is
seen at its place, and everything else is seen as before. What was at the place may have been
a file, or nothing, but no directory. -/
theorem sightAt_put {new : FileTree} (hnew : new.entries = []) {folder : List Piece}
    {name : Piece} {tree : FileTree} (hfolder : tree.sightAt folder = .directory)
    (hplace : tree.sightAt (folder ++ [name]) ≠ .directory) (other : List Piece) :
    (put new (folder ++ [name]) tree).sightAt other =
      if other = folder ++ [name] then new.sightAt [] else tree.sightAt other := by
  induction folder generalizing tree other with
  | nil =>
      cases tree with
      | file _ => cases hfolder
      | directory entries =>
          cases other with
          | nil => rfl
          | cons first way =>
              rw [List.nil_append, put, sightAt_setEntry, put]
              by_cases hfirst : name = first
              · subst hfirst
                rw [if_pos rfl]
                cases way with
                | nil => rw [if_pos rfl]
                | cons next way =>
                    -- nothing is below the place, before and after
                    rw [if_neg (by simp), sightAt_cons, hnew]
                    exact (sightAt_below hplace next way).symm
              · rw [if_neg hfirst, if_neg (by simp [Ne.symm hfirst])]
  | cons first folder ih =>
      cases tree with
      | file _ => cases hfolder
      | directory entries =>
          rw [List.cons_append, sightAt_cons, FileTree.entries] at hplace
          rw [sightAt_cons, FileTree.entries] at hfolder
          cases hnamed : named? first entries with
          | none => rw [hnamed] at hfolder; cases hfolder
          | some child =>
              rw [hnamed] at hfolder hplace
              cases other with
              | nil => rfl
              | cons next way =>
                  rw [List.cons_append, put, hnamed, Option.getD_some, sightAt_setEntry]
                  by_cases hnext : first = next
                  · subst hnext
                    rw [if_pos rfl, ih hfolder hplace way, sightAt_cons, FileTree.entries, hnamed]
                    simp
                  · rw [if_neg hnext, if_neg (by simp [Ne.symm hnext])]

/-- Where a file is seen, another one can be put, and nothing else is seen differently. -/
theorem sightAt_put_file {tree : FileTree} {way : List Piece} {contents new : List UInt8}
    (hfile : tree.sightAt way = .file contents) (other : List Piece) :
    (put (.file new) way tree).sightAt other =
      if other = way then .file new else tree.sightAt other := by
  rcases List.eq_nil_or_concat' way with rfl | ⟨folder, name, rfl⟩
  · -- the whole tree is that file, before and after
    cases other with
    | nil => rfl
    | cons first rest =>
        have hold : tree.sightAt [] ≠ .directory := by
          rw [hfile]
          exact Sight.noConfusion
        rw [if_neg (List.cons_ne_nil first rest)]
        exact (sightAt_below hold first rest).symm
  · have hfolder : tree.sightAt folder = .directory := by
      by_contra hne
      rw [sightAt_below hne name []] at hfile
      cases hfile
    have hplace : tree.sightAt (folder ++ [name]) ≠ .directory := by
      rw [hfile]
      exact Sight.noConfusion
    exact sightAt_put rfl hfolder hplace other

end FileTree

namespace FileSystem

variable {fs fs' : FileSystem}

/-- What is seen at the end of a way of names. -/
def sightAt (fs : FileSystem) (way : List Piece) : Sight :=
  fs.root.sightAt way

/-- What is seen of what a path names. -/
def sightOf (fs : FileSystem) (path : Path) : Sight :=
  Sight.of (fs.lookup path)

/-- The text that is read by a path is that of what the path names. -/
theorem readText_of_lookup {path : Path} {tree : FileTree} (h : fs.lookup path = some tree) :
    fs.readText path = tree.text := by
  unfold lookup at h
  unfold readText
  cases hlocate : fs.locate path with
  | error fault => rw [hlocate] at h; cases h
  | ok way =>
      rw [hlocate] at h
      replace h : fs.at? way = some tree := h
      simp only [bind, Except.bind, h]
      cases tree <;> rfl

/-! ### Following a path

Only what is seen matters here. The entries of a directory come in just to find out whether a
name is among them. -/

theorem directoryAt_eq_ok {way : List Piece} {entries : List (Piece × FileTree)} :
    fs.directoryAt way = .ok entries ↔ fs.at? way = some (.directory entries) := by
  unfold directoryAt
  split <;> simp_all

/-- A directory is seen exactly where there is one to follow a path through. -/
theorem sightAt_eq_directory {way : List Piece} :
    fs.sightAt way = .directory ↔ ∃ entries, fs.directoryAt way = .ok entries := by
  simp only [directoryAt_eq_ok]
  unfold sightAt FileTree.sightAt at?
  cases fs.root.find? way with
  | none => simp [Sight.of]
  | some tree => cases tree <;> simp [Sight.of]

/-- A name is among the entries of a directory exactly if something is seen at it. -/
theorem isSome_named? {way : List Piece} {entries : List (Piece × FileTree)}
    (h : fs.directoryAt way = .ok entries) (piece : Piece) :
    (FileTree.named? piece entries).isSome = true ↔ fs.sightAt (way ++ [piece]) ≠ .nothing := by
  have hat : fs.root.find? way = some (.directory entries) := directoryAt_eq_ok.mp h
  unfold sightAt FileTree.sightAt
  rw [FileTree.find?_append, hat, Option.bind_some, FileTree.find?, FileTree.entries]
  cases FileTree.named? piece entries with
  | none => simp [Sight.of]
  | some tree => cases tree <;> simp [Sight.of, FileTree.find?]

/-- A move leads on from directories only: to the same place, to the one above, or to a
name at which something is seen. -/
theorem follow_cons_eq_ok {way found : List Piece} {move : Path.Component}
    {moves : List Path.Component} :
    fs.follow way (move :: moves) = .ok found ↔
      fs.sightAt way = .directory ∧
        match move with
        | .root => fs.follow way moves = .ok found
        | .current => fs.follow way moves = .ok found
        | .parent => fs.follow way.dropLast moves = .ok found
        | .name piece => acceptName piece = .ok () ∧ fs.sightAt (way ++ [piece]) ≠ .nothing ∧
            fs.follow (way ++ [piece]) moves = .ok found := by
  rw [sightAt_eq_directory, follow]
  cases hentries : fs.directoryAt way with
  | error fault => simp [bind, Except.bind]
  | ok entries =>
      cases move with
      | root => simp [bind, Except.bind]
      | current => simp [bind, Except.bind]
      | parent => simp [bind, Except.bind]
      | name piece =>
          have hsight := isSome_named? hentries piece
          cases haccept : acceptName piece with
          | error fault => simp [bind, Except.bind, haccept]
          | ok =>
              by_cases hnamed : (FileTree.named? piece entries).isSome = true
              · simp [bind, Except.bind, haccept, hnamed, hsight.mp hnamed]
              · simp [bind, Except.bind, haccept, hnamed, mt hsight.mpr hnamed]

/-! ### A file at one place

The relation is stated in sights, and asks only that no directory is at the place, before or
after. So it covers a file that is created, written over, appended to or removed. -/

/-- Two file systems are alike but for one place, at which each has a file or nothing: a
file was written there, replaced or taken away. -/
structure AlikeElsewhere (place : List Piece) (fs fs' : FileSystem) : Prop where
  workingDirectory : fs'.workingDirectory = fs.workingDirectory
  elsewhere : ∀ way, way ≠ place → fs'.sightAt way = fs.sightAt way
  before : fs.sightAt place ≠ .directory
  after : fs'.sightAt place ≠ .directory

namespace AlikeElsewhere

variable {place : List Piece}

theorem symm (h : AlikeElsewhere place fs fs') : AlikeElsewhere place fs' fs where
  workingDirectory := h.workingDirectory.symm
  elsewhere way hway := (h.elsewhere way hway).symm
  before := h.after
  after := h.before

/-- A path leads to the place, or it leads where it led before. -/
theorem follow (h : AlikeElsewhere place fs fs') {moves : List Path.Component}
    {way found : List Piece} (hfound : fs.follow way moves = .ok found) :
    found = place ∨ fs'.follow way moves = .ok found := by
  induction moves generalizing way with
  | nil => exact .inr hfound
  | cons move moves ih =>
      obtain ⟨hdirectory, hmove⟩ := follow_cons_eq_ok.mp hfound
      have hway : way ≠ place := fun heq => h.before (heq ▸ hdirectory)
      have hdirectory' : fs'.sightAt way = .directory := (h.elsewhere way hway).trans hdirectory
      cases move with
      | root => exact (ih hmove).imp_right fun hrest => follow_cons_eq_ok.mpr ⟨hdirectory', hrest⟩
      | current =>
          exact (ih hmove).imp_right fun hrest => follow_cons_eq_ok.mpr ⟨hdirectory', hrest⟩
      | parent =>
          exact (ih hmove).imp_right fun hrest => follow_cons_eq_ok.mpr ⟨hdirectory', hrest⟩
      | name piece =>
          obtain ⟨haccept, hsight, hrest⟩ := hmove
          by_cases hpiece : way ++ [piece] = place
          · -- nothing leads on from the place, so the path ends there
            cases moves with
            | nil => exact .inl ((Except.ok.inj hrest).symm.trans hpiece)
            | cons move moves =>
                exact absurd (follow_cons_eq_ok.mp hrest).1 (hpiece ▸ h.before)
          · rw [← h.elsewhere _ hpiece] at hsight
            exact (ih hrest).imp_right fun hrest =>
              follow_cons_eq_ok.mpr ⟨hdirectory', haccept, hsight, hrest⟩

/-- What holds of moves holds of the path that they are the moves of. -/
theorem locate (h : AlikeElsewhere place fs fs') {path : Path} {found : List Piece}
    (hfound : fs.locate path = .ok found) : found = place ∨ fs'.locate path = .ok found := by
  have hstart : fs'.start path = fs.start path := by
    unfold start
    rw [h.workingDirectory]
  unfold FileSystem.locate at hfound ⊢
  rw [hstart]
  cases haccept : accept path with
  | error fault => rw [haccept] at hfound; cases hfound
  | ok => rw [haccept] at hfound; exact h.follow hfound

/-- The sight of a path that does not lead to the place is as before. -/
theorem sightOf_eq (h : AlikeElsewhere place fs fs') {path : Path}
    (hbefore : fs.locate path ≠ .ok place) (hafter : fs'.locate path ≠ .ok place) :
    fs'.sightOf path = fs.sightOf path := by
  unfold sightOf lookup
  cases hfound : fs.locate path with
  | ok way =>
      have hway : way ≠ place := fun heq => hbefore (heq ▸ hfound)
      rw [(h.locate hfound).resolve_left hway]
      exact h.elsewhere way hway
  | error fault =>
      cases hfound' : fs'.locate path with
      | error fault' => rfl
      | ok way =>
          have hway : way ≠ place := fun heq => hafter (heq ▸ hfound')
          rw [(h.symm.locate hfound').resolve_left hway] at hfound
          cases hfound

end AlikeElsewhere

end FileSystem

end MessageExport
