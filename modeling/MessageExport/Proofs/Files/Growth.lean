import MessageExport.Proofs.Files.Sight
/-!
# MessageExport.Proofs.Files.Growth

File systems that **grow**.

Nothing is ever removed or overwritten. So places stay what they are, if only files may get
other contents (`Retains`), and that is enough for a path that led somewhere to lead there
still: a path asks of the places that it passes whether they are directories, and of the last
one whether anything is there. Mostly, what was seen at a place is seen there just as before
(`Extends`). Where directories are all that comes in addition, they are told apart by a
condition on their places (`GrownBy`), and steps that meet one condition add up to a run that
meets it. A file that is written at its end is the one thing that looks different afterwards
(`OtherContents`), and every path leads where it led.
-/

namespace MessageExport.FileSystem

variable {fs fs' fs'' : FileSystem}

/-- What was there is there, and what was a directory is one. -/
structure Retains (fs fs' : FileSystem) : Prop where
  workingDirectory : fs'.workingDirectory = fs.workingDirectory
  directory : ∀ {way}, fs.sightAt way = .directory → fs'.sightAt way = .directory
  ne_nothing : ∀ {way}, fs.sightAt way ≠ .nothing → fs'.sightAt way ≠ .nothing

/-- Whatever was seen is seen as before. -/
structure Extends (fs fs' : FileSystem) : Prop where
  workingDirectory : fs'.workingDirectory = fs.workingDirectory
  sightAt_eq : ∀ way, fs.sightAt way ≠ .nothing → fs'.sightAt way = fs.sightAt way

/-- Whatever was seen is seen as before, and what is seen in addition are directories at
certain places. -/
structure GrownBy (added : List Piece → Prop) (fs fs' : FileSystem) : Prop
    extends Extends fs fs' where
  added_of_ne : ∀ way, fs.sightAt way = .nothing → fs'.sightAt way ≠ .nothing →
    fs'.sightAt way = .directory ∧ added way

namespace Retains

theorem trans (h : Retains fs fs') (h' : Retains fs' fs'') : Retains fs fs'' where
  workingDirectory := h'.workingDirectory.trans h.workingDirectory
  directory hway := h'.directory (h.directory hway)
  ne_nothing hway := h'.ne_nothing (h.ne_nothing hway)

theorem start (h : Retains fs fs') (path : Path) : fs'.start path = fs.start path := by
  unfold FileSystem.start
  rw [h.workingDirectory]

/-- A way that could be followed can be followed still. The induction is on the moves; each
asks for a directory where it stands, and a name for anything at all where it leads. -/
theorem follow (h : Retains fs fs') {moves : List Path.Component} {way found : List Piece}
    (hfound : fs.follow way moves = .ok found) : fs'.follow way moves = .ok found := by
  induction moves generalizing way with
  | nil => exact hfound
  | cons move moves ih =>
      obtain ⟨hdirectory, hmove⟩ := follow_cons_eq_ok.mp hfound
      refine follow_cons_eq_ok.mpr ⟨h.directory hdirectory, ?_⟩
      cases move with
      | root => exact ih hmove
      | current => exact ih hmove
      | parent => exact ih hmove
      | name piece =>
          obtain ⟨haccept, hsight, hrest⟩ := hmove
          exact ⟨haccept, h.ne_nothing hsight, ih hrest⟩

theorem locate (h : Retains fs fs') {path : Path} {found : List Piece}
    (hfound : fs.locate path = .ok found) : fs'.locate path = .ok found := by
  unfold FileSystem.locate at hfound ⊢
  rw [h.start]
  cases haccept : accept path with
  | error fault => rw [haccept] at hfound; cases hfound
  | ok => rw [haccept] at hfound; exact h.follow hfound

end Retains

namespace Extends

theorem refl (fs : FileSystem) : Extends fs fs := ⟨rfl, fun _ _ => rfl⟩

theorem trans (h : Extends fs fs') (h' : Extends fs' fs'') : Extends fs fs'' where
  workingDirectory := h'.workingDirectory.trans h.workingDirectory
  sightAt_eq way hway := by
    have hsight := h.sightAt_eq way hway
    rw [h'.sightAt_eq way (hsight ▸ hway), hsight]

theorem retains (h : Extends fs fs') : Retains fs fs' where
  workingDirectory := h.workingDirectory
  directory {way} hway := by
    rw [h.sightAt_eq way (Sight.ne_nothing_of_directory hway), hway]
  ne_nothing {way} hway := by
    rwa [h.sightAt_eq way hway]

end Extends

/-! ### What paths name

The three relations say something of places. Here it is carried over to paths, which lead to
places. -/

/-- What is seen of a path is what is seen where it leads. -/
theorem sightOf_of_locate {path : Path} {way : List Piece} (h : fs.locate path = .ok way) :
    fs.sightOf path = fs.sightAt way := by
  unfold sightOf lookup
  rw [h]
  rfl

/-- A path of which something is seen leads there. -/
theorem exists_locate_of_sightOf {path : Path} (h : fs.sightOf path ≠ .nothing) :
    ∃ way, fs.locate path = .ok way ∧ fs.sightAt way = fs.sightOf path := by
  cases hlocate : fs.locate path with
  | ok way => exact ⟨way, rfl, (sightOf_of_locate hlocate).symm⟩
  | error fault =>
      unfold sightOf lookup at h
      rw [hlocate] at h
      exact absurd rfl h

/-- A path has a directory exactly if one is seen. -/
theorem hasDirectory_iff {path : Path} :
    fs.hasDirectory path = true ↔ fs.sightOf path = .directory := by
  unfold hasDirectory sightOf
  cases fs.lookup path with
  | none => simp [Sight.of]
  | some tree => cases tree <;> simp [Sight.of, FileTree.isDirectory]

/-- What was seen of a path is seen of it as before. -/
theorem Extends.sightOf_eq (h : Extends fs fs') {path : Path} (hpath : fs.sightOf path ≠ .nothing) :
    fs'.sightOf path = fs.sightOf path := by
  obtain ⟨way, hlocate, hsight⟩ := exists_locate_of_sightOf hpath
  rw [sightOf_of_locate (h.retains.locate hlocate), h.sightAt_eq way (hsight ▸ hpath), hsight]

/-- A path that led to a directory leads to one. -/
theorem Retains.sightOf_of_directory (h : Retains fs fs') {path : Path}
    (hpath : fs.sightOf path = .directory) : fs'.sightOf path = .directory := by
  obtain ⟨way, hlocate, hsight⟩ :=
    exists_locate_of_sightOf (Sight.ne_nothing_of_directory hpath)
  rw [sightOf_of_locate (h.locate hlocate)]
  exact h.directory (hsight.trans hpath)

/-! ### Directories in addition -/

section

variable {new : FileTree} (hnew : new.entries = []) {folder : List Piece} {name : Piece}
  (hfolder : fs.sightAt folder = .directory) (hplace : fs.sightAt (folder ++ [name]) = .nothing)

include hnew hfolder hplace

theorem sightAt_put_of_nothing (way : List Piece) :
    (fs.put (folder ++ [name]) new).sightAt way =
      if way = folder ++ [name] then new.sightAt [] else fs.sightAt way := by
  refine FileTree.sightAt_put hnew hfolder ?_ way
  intro hdirectory
  rw [show fs.root.sightAt (folder ++ [name]) = .nothing from hplace] at hdirectory
  cases hdirectory

/-- To put something where nothing was leaves all else as it was. -/
theorem extends_put : Extends fs (fs.put (folder ++ [name]) new) where
  workingDirectory := rfl
  sightAt_eq way hway := by
    rw [sightAt_put_of_nothing hnew hfolder hplace, if_neg]
    rintro rfl
    exact hway hplace

end

namespace GrownBy

variable {added added' : List Piece → Prop}

theorem refl (added : List Piece → Prop) (fs : FileSystem) : GrownBy added fs fs where
  toExtends := Extends.refl fs
  added_of_ne _ hnothing hway := absurd hnothing hway

theorem trans (h : GrownBy added fs fs') (h' : GrownBy added fs' fs'') :
    GrownBy added fs fs'' where
  toExtends := h.toExtends.trans h'.toExtends
  added_of_ne way hnothing hway := by
    by_cases hmiddle : fs'.sightAt way = .nothing
    · exact h'.added_of_ne way hmiddle hway
    · obtain ⟨hdirectory, hadded⟩ := h.added_of_ne way hnothing hmiddle
      exact ⟨h'.retains.directory hdirectory, hadded⟩

/-- A file is seen where one was seen before, and nowhere else. -/
theorem sightAt_eq_file_iff (h : GrownBy added fs fs') {way : List Piece}
    {contents : List UInt8} :
    fs'.sightAt way = .file contents ↔ fs.sightAt way = .file contents := by
  constructor
  · intro hfile
    by_cases hnothing : fs.sightAt way = .nothing
    · obtain ⟨hdirectory, -⟩ := h.added_of_ne way hnothing (Sight.ne_nothing_of_file hfile)
      rw [hdirectory] at hfile
      cases hfile
    · rwa [h.sightAt_eq way hnothing] at hfile
  · intro hfile
    rwa [h.sightAt_eq way (Sight.ne_nothing_of_file hfile)]

/-- An empty directory that is put where nothing was comes in addition. -/
theorem put_empty {folder : List Piece} {name : Piece}
    (hfolder : fs.sightAt folder = .directory) (hplace : fs.sightAt (folder ++ [name]) = .nothing)
    (hadded : added (folder ++ [name])) :
    GrownBy added fs (fs.put (folder ++ [name]) .empty) := by
  have hsight : ∀ way, (fs.put (folder ++ [name]) .empty).sightAt way =
      if way = folder ++ [name] then .directory else fs.sightAt way :=
    sightAt_put_of_nothing rfl hfolder hplace
  refine ⟨extends_put rfl hfolder hplace, ?_⟩
  intro way hnothing hway
  rw [hsight] at hway ⊢
  split at hway
  · rename_i heq
    exact ⟨if_pos heq, heq ▸ hadded⟩
  · exact absurd hnothing hway

end GrownBy

/-! ### Other contents

Unlike those before, this relation is symmetric: a file is there on both sides, so neither has
places that the other lacks. -/

/-- A file has other contents, or is written as it was, and nothing else is different. -/
structure OtherContents (way : List Piece) (fs fs' : FileSystem) : Prop where
  workingDirectory : fs'.workingDirectory = fs.workingDirectory
  elsewhere : ∀ other, other ≠ way → fs'.sightAt other = fs.sightAt other
  before : ∃ contents, fs.sightAt way = .file contents
  after : ∃ contents, fs'.sightAt way = .file contents

namespace OtherContents

variable {way : List Piece}

theorem symm (h : OtherContents way fs fs') : OtherContents way fs' fs where
  workingDirectory := h.workingDirectory.symm
  elsewhere other hother := (h.elsewhere other hother).symm
  before := h.after
  after := h.before

theorem trans (h : OtherContents way fs fs') (h' : OtherContents way fs' fs'') :
    OtherContents way fs fs'' where
  workingDirectory := h'.workingDirectory.trans h.workingDirectory
  elsewhere other hother := (h'.elsewhere other hother).trans (h.elsewhere other hother)
  before := h.before
  after := h'.after

/-- What a file holds is in the way of no path. -/
theorem retains (h : OtherContents way fs fs') : Retains fs fs' where
  workingDirectory := h.workingDirectory
  directory {other} hother := by
    have hne : other ≠ way := by
      rintro rfl
      obtain ⟨contents, hfile⟩ := h.before
      rw [hfile] at hother
      cases hother
    rw [h.elsewhere other hne, hother]
  ne_nothing {other} hother := by
    by_cases heq : other = way
    · obtain ⟨contents, hfile⟩ := h.after
      exact heq ▸ Sight.ne_nothing_of_file hfile
    · rwa [h.elsewhere other heq]

/-- So paths lead where they led, be it before or after. -/
theorem locate_iff (h : OtherContents way fs fs') {path : Path} {found : List Piece} :
    fs'.locate path = .ok found ↔ fs.locate path = .ok found :=
  ⟨h.symm.retains.locate, h.retains.locate⟩

theorem alikeElsewhere (h : OtherContents way fs fs') : AlikeElsewhere way fs fs' where
  workingDirectory := h.workingDirectory
  elsewhere := h.elsewhere
  before := by
    obtain ⟨contents, hfile⟩ := h.before
    rw [hfile]
    exact Sight.noConfusion
  after := by
    obtain ⟨contents, hfile⟩ := h.after
    rw [hfile]
    exact Sight.noConfusion

/-- The sight of a path that does not lead to the file is as before. -/
theorem sightOf_eq (h : OtherContents way fs fs') {path : Path}
    (hpath : fs'.locate path ≠ .ok way) : fs'.sightOf path = fs.sightOf path :=
  h.alikeElsewhere.sightOf_eq (mt h.locate_iff.mpr hpath) hpath

end OtherContents

section

variable {path : Path} {way : List Piece} {contents : List UInt8}
  (hlocate : fs.locate path = .ok way) (hfile : fs.sightAt way = .file contents)

include hlocate hfile

theorem append_eq (bytes : List UInt8) :
    fs.append path bytes = fs.put way (.file (contents ++ bytes)) := by
  have hat : fs.at? way = some (.file contents) := Sight.of_eq_file_iff.mp hfile
  unfold append
  rw [hlocate]
  dsimp only
  rw [hat]

/-- Only the contents of the file are other than before. -/
theorem sightAt_append (bytes : List UInt8) (other : List Piece) :
    (fs.append path bytes).sightAt other =
      if other = way then .file (contents ++ bytes) else fs.sightAt other := by
  rw [append_eq hlocate hfile]
  exact FileTree.sightAt_put_file hfile other

theorem otherContents_append (bytes : List UInt8) :
    OtherContents way fs (fs.append path bytes) where
  workingDirectory := by rw [append_eq hlocate hfile]; rfl
  elsewhere other hother := by rw [sightAt_append hlocate hfile, if_neg hother]
  before := ⟨contents, hfile⟩
  after := ⟨contents ++ bytes, by rw [sightAt_append hlocate hfile, if_pos rfl]⟩

end

/-! ### Places on a way

Places form a tree: on the way to anything that is seen are directories, and behind what is no
directory is nothing. A file that stands on the way is what makes a path fail for good. -/

/-- Every place on the way to one at which something is seen is a directory. -/
theorem sightAt_of_isPrefix {front way : List Piece} (hfront : front <+: way)
    (hne : front ≠ way) (hway : fs.sightAt way ≠ .nothing) : fs.sightAt front = .directory := by
  obtain ⟨rest, rfl⟩ := hfront
  cases rest with
  | nil => exact absurd (List.append_nil front).symm hne
  | cons name rest =>
      by_contra hsight
      exact hway (FileTree.sightAt_below hsight name rest)

/-- Nothing is seen beyond a place at which nothing is seen. -/
theorem sightAt_of_nothing {front way : List Piece} (hfront : front <+: way)
    (hnothing : fs.sightAt front = .nothing) : fs.sightAt way = .nothing := by
  by_contra hway
  by_cases heq : front = way
  · exact hway (heq ▸ hnothing)
  · rw [sightAt_of_isPrefix hfront heq hway] at hnothing
    cases hnothing

/-- A file stands at a place or on the way to it. -/
def Blocked (fs : FileSystem) (way : List Piece) : Prop :=
  ∃ front, front <+: way ∧ ∃ contents, fs.sightAt front = .file contents

/-- No file stands on the way to a directory. -/
theorem not_blocked_of_directory {way : List Piece} (hway : fs.sightAt way = .directory) :
    ¬ fs.Blocked way := by
  rintro ⟨front, hfront, contents, hfile⟩
  by_cases heq : front = way
  · rw [heq, hway] at hfile
    cases hfile
  · rw [sightAt_of_isPrefix hfront heq (Sight.ne_nothing_of_directory hway)] at hfile
    cases hfile

/-- A file stands on the way to a name in a place, or at the name itself. -/
theorem blocked_concat_iff {way : List Piece} {name : Piece} :
    fs.Blocked (way ++ [name]) ↔
      fs.Blocked way ∨ ∃ contents, fs.sightAt (way ++ [name]) = .file contents := by
  constructor
  · rintro ⟨front, hfront, hfile⟩
    rcases List.prefix_concat_iff.mp hfront with rfl | hfront
    · exact .inr hfile
    · exact .inl ⟨front, hfront, hfile⟩
  · rintro (⟨front, hfront, hfile⟩ | hfile)
    · exact ⟨front, hfront.trans (List.prefix_append way [name]), hfile⟩
    · exact ⟨_, List.prefix_rfl, hfile⟩

/-- Where nothing is seen, no file can stand further on. -/
theorem Blocked.of_nothing {front way : List Piece} (h : fs.Blocked way) (hfront : front <+: way)
    (hnothing : fs.sightAt front = .nothing) : fs.Blocked front := by
  obtain ⟨first, hfirst, contents, hfile⟩ := h
  rcases List.prefix_or_prefix_of_prefix hfirst hfront with hle | hle
  · exact ⟨first, hle, contents, hfile⟩
  · rw [sightAt_of_nothing hle hnothing] at hfile
    cases hfile

end MessageExport.FileSystem
