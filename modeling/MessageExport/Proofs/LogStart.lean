import MessageExport.Proofs.Files.Directories
import MessageExport.Proofs.LogFile
/-!
# MessageExport.Proofs.LogStart

What **starting to log** does to the file system.

The directory of a log file is a plain path (`LogTarget.plain_directory`), so it is made along
a ladder of its own, and a start is refused for it exactly if it is not made
(`startLogging_of_target`). A refusal leaves everything as it was, with one exception: that a
name is too long is found out only where the name stands, and the directories before it are
made by then (`not_unchanged_of_long_name`).

## Shape of the proofs

A start has three steps, and each of them is known by a relation between the files before and
after it. Making directories grows the file system by directories (`GrownBy`), opening the file
extends it (`extends_of_ensureFile`), and writing the first line changes the contents of that
file only (`OtherContents`). `startLogging_of_target` goes through the branches of the
definition once and puts the last two steps together; what it says of the first is left to the
lemmas about directories.
-/

namespace MessageExport

namespace LogTarget

/-- The directory of a log file is a plain path, if the path of the log file takes no step
upwards. -/
theorem plain_directory {path : Path} {target : LogTarget} (h : ofPath path = .ok target)
    (hparent : .parent ∉ path.components) : target.directory.Plain := by
  obtain ⟨front, more, hends, hdirectory⟩ := ofPath_eq_ok_iff.mp h
  have hfront : front <+: path.pieces := ⟨_, hends.pieces_eq.symm⟩
  rw [Path.parent_mem_components_iff] at hparent
  rw [hdirectory]
  unfold logDirectory
  split
  · have hprecedes : Path.Opening.current.Precedes [] := by
      intro piece hpiece
      cases hpiece
    exact Path.plain_ofPieces hprecedes (List.forall_mem_nil _) List.not_mem_nil
      (List.cons_ne_nil _ _)
  · rename_i hne
    refine Path.plain_ofPieces ?_ ?_ (fun hmem => hparent (hfront.subset hmem)) hne
    · exact (Path.precedes_pieces (by simp [hends.pieces_eq]) hends.significant).shorten hfront
    · exact fun piece hpiece => Path.slash_not_mem_of_mem_pieces piece (hfront.subset hpiece)

end LogTarget

/-! ### The file

A file that is opened to be written at its end is created if it is missing. Its directory is
there by then. -/

namespace FileSystem

variable {fs opened : FileSystem} {path : Path}

/-- Opening a file leaves everything as it was, makes no directory, and ends with a file that
was there, or with an empty one where nothing was. -/
theorem extends_of_ensureFile (h : fs.ensureFile path = .ok opened) :
    Extends fs opened ∧
      (∀ way, opened.sightAt way = .directory → fs.sightAt way = .directory) ∧
      ∃ way contents, opened.locate path = .ok way ∧ opened.sightAt way = .file contents ∧
        (fs.sightAt way = .file contents ∨ fs.sightAt way = .nothing ∧ contents = []) := by
  unfold ensureFile at h
  cases hlookup : fs.lookup path with
  | some tree =>
      rw [hlookup] at h
      cases tree with
      | file contents =>
          obtain rfl := Except.ok.inj h
          have hfile : fs.sightOf path = .file contents := by
            unfold sightOf
            rw [hlookup]
            rfl
          obtain ⟨way, hlocate, hsight⟩ :=
            exists_locate_of_sightOf (Sight.ne_nothing_of_file hfile)
          rw [hfile] at hsight
          exact ⟨Extends.refl fs, fun _ => id, way, contents, hlocate, hsight, .inl hsight⟩
      | directory entries => cases h
  | none =>
      rw [hlookup] at h
      cases hplace : fs.place path with
      | error fault => rw [hplace] at h; cases h
      | ok found =>
          obtain ⟨way, name⟩ := found
          rw [hplace] at h
          obtain rfl := Except.ok.inj h
          have hfolder := sightAt_of_place hplace
          have hnothing : fs.sightAt (way ++ [name]) = .nothing := by
            by_contra hsight
            have hsightOf := sightOf_of_place hplace hsight
            unfold sightOf at hsightOf
            rw [hlookup] at hsightOf
            exact hsight hsightOf.symm
          have hextends : Extends fs (fs.put (way ++ [name]) (.file [])) :=
            extends_put rfl hfolder hnothing
          have hsight : ∀ other, (fs.put (way ++ [name]) (.file [])).sightAt other =
              if other = way ++ [name] then .file [] else fs.sightAt other :=
            sightAt_put_of_nothing rfl hfolder hnothing
          have hempty := (hsight (way ++ [name])).trans (if_pos rfl)
          refine ⟨hextends, ?_, way ++ [name], [], ?_, hempty, .inr ⟨hnothing, rfl⟩⟩
          · intro other hother
            rw [hsight] at hother
            split at hother
            · cases hother
            · exact hother
          · exact locate_of_place (hextends.retains.place hplace) (Sight.ne_nothing_of_file hempty)

end FileSystem

/-! ### The start

Nothing is done for a path without a log file. In all other cases the directory is made first.
-/

open FileSystem (Extends Retains)

/-- A path without a log file is refused before anything is touched. -/
theorem startLogging_of_refused {path : Path} {fault : LogFault} (fs : FileSystem)
    (logging : Bool) (line : List UInt8) (h : LogTarget.ofPath path = .error fault) :
    startLogging fs path logging line = (fs, .refused fault) := by
  unfold startLogging
  rw [h]

/-- From the first file system to the second a file was opened at a way, and bytes were
written at its end. -/
structure FileSystem.GrownFile (bytes : List UInt8) (way : List Piece) (fs fs' : FileSystem) :
    Prop where
  grown : ∃ contents, fs'.sightAt way = .file (contents ++ bytes) ∧
    (fs.sightAt way = .file contents ∨ fs.sightAt way = .nothing ∧ contents = [])
  elsewhere : ∀ other, other ≠ way → fs.sightAt other ≠ .nothing →
    fs'.sightAt other = fs.sightAt other

/-- A start that has a target is refused for its directory exactly if that is not made, and
then nothing more is done. Otherwise a file is opened, or not. If it is and nothing else logs
already, the first line is written at its end, and that is all that looks different from
before. -/
theorem startLogging_of_target {path : Path} {target : LogTarget} (fs : FileSystem)
    (logging : Bool) (line : List UInt8) (h : LogTarget.ofPath path = .ok target) :
    let made := fs.makeDirectories target.directory
    let run := startLogging fs path logging line
    (¬ ∃ refused, run.2 = .refused (.invalidPath refused)) ∧
      ((∃ directory fault, run.2 = .refused (.directoryCreation directory fault)) ↔
        made.2 ≠ .ok ()) ∧
      (made.2 ≠ .ok () → run.1 = made.1) ∧
      Retains made.1 run.1 ∧
      (∀ way, run.1.sightAt way = .directory → made.1.sightAt way = .directory) ∧
      (run.2 ≠ .started → Extends made.1 run.1) ∧
      (run.2 = .started → ∃ way, run.1.locate target.path = .ok way ∧
        FileSystem.GrownFile line way made.1 run.1) := by
  intro made run
  have hrun : run = startLogging fs path logging line := rfl
  unfold startLogging at hrun
  rw [h] at hrun
  dsimp only at hrun
  rcases hmade : made with ⟨own, fault | ⟨⟩⟩
  · -- the directory is not made: that is all that happens
    rw [show fs.makeDirectories target.directory = _ from hmade] at hrun
    rw [hrun]
    exact ⟨by simp, by simp, fun _ => rfl, (Extends.refl own).retains, fun _ => id,
      fun _ => Extends.refl own, by simp⟩
  · rw [show fs.makeDirectories target.directory = _ from hmade] at hrun
    dsimp only at hrun
    cases hensure : own.ensureFile target.path with
    | error fault =>
        rw [hensure] at hrun
        rw [hrun]
        exact ⟨by simp, by simp, fun _ => rfl, (Extends.refl own).retains, fun _ => id,
          fun _ => Extends.refl own, by simp⟩
    | ok opened =>
        obtain ⟨hextends, hdirectory, way, contents, hlocate, hfile, hbefore⟩ :=
          FileSystem.extends_of_ensureFile hensure
        rw [hensure] at hrun
        -- a second logger is refused after the file has been opened, and writes nothing
        cases logging with
        | true =>
            rw [hrun]
            exact ⟨by simp, by simp, fun hne => absurd rfl hne, hextends.retains, hdirectory,
              fun _ => hextends, by simp⟩
        | false =>
            have hretains := (FileSystem.otherContents_append hlocate hfile line).retains
            have hsight := FileSystem.sightAt_append hlocate hfile line
            replace hrun : run = (opened.append target.path line, .started) := hrun
            rw [hrun]
            refine ⟨by simp, by simp, fun hne => absurd rfl hne, hextends.retains.trans hretains,
              ?_, fun hne => absurd rfl hne, fun _ => ⟨way, hretains.locate hlocate, ?_, ?_⟩⟩
            · intro other hother
              rw [hsight] at hother
              split at hother
              · cases hother
              · exact hdirectory other hother
            · exact ⟨contents, (hsight way).trans (if_pos rfl), hbefore⟩
            · intro other hother hne
              exact ((hsight other).trans (if_neg hother)).trans (hextends.sightAt_eq other hne)

/-- A start that succeeds opens the log file, and then writes whichever line it is given. -/
theorem startLogging_of_started {fs : FileSystem} {path : Path} {line : List UInt8}
    (h : (startLogging fs path false line).2 = .started) :
    ∃ target opened way contents, LogTarget.ofPath path = .ok target ∧ Extends fs opened ∧
      opened.locate target.path = .ok way ∧ opened.sightAt way = .file contents ∧
      ∀ line', startLogging fs path false line' = (opened.append target.path line', .started) := by
  unfold startLogging at h ⊢
  cases htarget : LogTarget.ofPath path with
  | error fault =>
      rw [htarget] at h
      cases h
  | ok target =>
      rw [htarget] at h
      dsimp only at h ⊢
      have hextends := fs.extends_makeDirectories target.directory
      rcases hmade : fs.makeDirectories target.directory with ⟨made, fault | ⟨⟩⟩
      · rw [hmade] at h
        cases h
      · rw [hmade] at h hextends
        dsimp only at h hextends ⊢
        cases hensure : made.ensureFile target.path with
        | error fault =>
            rw [hensure] at h
            cases h
        | ok opened =>
            obtain ⟨hopened, -, way, contents, hlocate, hfile, -⟩ :=
              FileSystem.extends_of_ensureFile hensure
            exact ⟨target, opened, way, contents, rfl, hextends.trans hopened, hlocate, hfile,
              fun _ => rfl⟩

/-- **A refused start leaves no trace.** Let the working directory be there, and let the path of
a log file take no step upwards. A start is refused as invalid exactly if the path is, and then
nothing is touched. A path that is split into a directory and a name is refused for the
directory exactly if the system does not take that, or a path above it, or it itself, is a
file. Then nothing is touched either, unless no file is in the way and a name is too long in a
directory that the system accepts as a whole. In every other case the directory is there
afterwards, even if something else logs already. The directories that come in addition are the
directory of the log file and those above it that were missing. What was there is there in any
case as it was, but for the log file: exactly if logging is started, that holds the first line
behind what was in it, or behind nothing if there was none. -/
theorem startLogging_makes_directory_or_nothing (fs : FileSystem) (path : Path) (logging : Bool)
    (line : List UInt8) (hworking : fs.sightAt fs.workingDirectory = .directory)
    (hparent : .parent ∉ path.components) :
    let after := (startLogging fs path logging line).1
    let start := (startLogging fs path logging line).2
    ((∃ refused, start = .refused (.invalidPath refused)) ↔
        ∃ fault, LogTarget.ofPath path = .error fault) ∧
      ((∃ refused, start = .refused (.invalidPath refused)) → after = fs) ∧
      ∀ target, LogTarget.ofPath path = .ok target →
        ((∃ directory fault, start = .refused (.directoryCreation directory fault)) ↔
            ¬ target.directory.Nameable ∨
              ∃ ancestor ∈ target.directory.ancestors, ∃ contents,
                fs.sightOf ancestor = .file contents) ∧
          ((∃ directory fault, start = .refused (.directoryCreation directory fault)) →
            after = fs ∨
              FileSystem.accept target.directory = .ok () ∧
                (∃ name ∈ target.directory.names, FileSystem.maxNameLength < name.length) ∧
                  ∀ ancestor ∈ target.directory.ancestors, ∀ contents,
                    fs.sightOf ancestor ≠ .file contents) ∧
          ((¬ ∃ directory fault, start = .refused (.directoryCreation directory fault)) →
            after.sightOf target.directory = .directory) ∧
          (∀ way, fs.sightAt way ≠ .nothing →
            after.sightAt way = fs.sightAt way ∨
              start = .started ∧ after.locate target.path = .ok way ∧ ∃ contents,
                fs.sightAt way = .file contents ∧ after.sightAt way = .file (contents ++ line)) ∧
          (start = .started → ∃ way contents, after.locate target.path = .ok way ∧
            after.sightAt way = .file (contents ++ line) ∧
              (fs.sightAt way = .file contents ∨ fs.sightAt way = .nothing ∧ contents = [])) ∧
          ∀ way, fs.sightAt way ≠ .directory → after.sightAt way = .directory →
            ∃ ancestor ∈ target.directory.ancestors,
              fs.sightOf ancestor = .nothing ∧ after.locate ancestor = .ok way := by
  intro after start
  rcases LogTarget.ofPath_cases path with ⟨target, htarget⟩ | hrefused
  · obtain ⟨hvalid, hfails, hunmade, hretains, hback, hextends, hgrown⟩ :=
      startLogging_of_target fs logging line htarget
    have hpath := LogTarget.plain_directory htarget hparent
    have hmade := fs.grownBy_makeDirectories hpath
    refine ⟨⟨fun h => absurd h hvalid, ?_⟩, fun h => absurd h hvalid, ?_⟩
    · rintro ⟨fault, hfault⟩
      rw [htarget] at hfault
      cases hfault
    · intro other hother
      obtain rfl := Except.ok.inj (htarget.symm.trans hother)
      refine ⟨hfails.trans ⟨?_, ?_⟩, ?_, ?_, ?_, ?_, ?_⟩
      · intro hfailed
        by_contra hnone
        rw [not_or, not_not] at hnone
        refine hfailed (FileSystem.makeDirectories_eq_ok hpath hworking hnone.1 ?_)
        intro ancestor hancestor contents hfile
        exact hnone.2 ⟨ancestor, hancestor, contents, hfile⟩
      · intro hobstacle hmade
        obtain ⟨hnameable, hfree⟩ := FileSystem.nameable_of_makeDirectories hpath hworking hmade
        rcases hobstacle with hnot | ⟨ancestor, hancestor, contents, hfile⟩
        · exact hnot hnameable
        · exact hfree ancestor hancestor contents hfile
      · intro hfailed
        rw [show after = _ from hunmade (hfails.mp hfailed)]
        exact FileSystem.makeDirectories_unchanged hpath hworking (hfails.mp hfailed)
      · intro hmade
        have hsight := FileSystem.sightOf_of_makeDirectories hpath hworking
          (not_not.mp (mt hfails.mpr hmade))
        exact hretains.sightOf_of_directory hsight
      · intro way hway
        -- the directories that are made leave it alone, so only the first line can matter
        rw [← hmade.sightAt_eq way hway]
        have hway' := hmade.retains.ne_nothing hway
        by_cases hstarted : start = .started
        · obtain ⟨place, hlocate, ⟨contents, hafter, hbefore⟩, helsewhere⟩ := hgrown hstarted
          by_cases hplace : way = place
          · subst hplace
            have hfile := hbefore.resolve_right fun h => hway' h.1
            exact .inr ⟨hstarted, hlocate, contents, hfile, hafter⟩
          · exact .inl (helsewhere way hplace hway')
        · exact .inl ((hextends hstarted).sightAt_eq way hway')
      · intro hstarted
        obtain ⟨way, hlocate, ⟨contents, hafter, hbefore⟩, -⟩ := hgrown hstarted
        refine ⟨way, contents, hlocate, hafter, hbefore.imp hmade.sightAt_eq_file_iff.mp ?_⟩
        exact And.imp_left fun hnothing => by_contra fun h => hmade.retains.ne_nothing h hnothing
      · intro way hway hdirectory
        obtain ⟨ancestor, hancestor, hnothing, hlocate⟩ :=
          FileSystem.exists_ancestor_of_makeDirectories hpath hworking hway (hback way hdirectory)
        exact ⟨ancestor, hancestor, hnothing, hretains.locate hlocate⟩
  · have hrun := startLogging_of_refused fs logging line hrefused
    refine ⟨⟨fun _ => ⟨_, hrefused⟩, fun _ => ⟨path, congrArg Prod.snd hrun⟩⟩,
      fun _ => congrArg Prod.fst hrun, ?_⟩
    intro target htarget
    rw [hrefused] at htarget
    cases htarget

/-- A file and a directory, in which the working directory is the root. -/
def fileAndDirectory : FileSystem :=
  { root := .directory
      [(Text.encode "notes", .file (Text.encode "x")), (Text.encode "logs", .directory [])]
    workingDirectory := [] }

/-- Below a directory two more are made, and below a file none; and a file that is the log file
itself grows. -/
theorem startLogging_makes_directory_or_nothing_nested :
    let below : Path := .ofString "/logs/a/b/run.log"
    let blocked : Path := .ofString "/notes/a/run.log"
    let line := Text.encode "started"
    let grown := (startLogging fileAndDirectory (.ofString "/notes") false line).1
    fileAndDirectory.sightAt fileAndDirectory.workingDirectory = .directory ∧
      .parent ∉ below.components ∧ .parent ∉ blocked.components ∧
      (startLogging fileAndDirectory below true line).2 = .refused .alreadyLogging ∧
      (startLogging fileAndDirectory below true line).1.sightOf (.ofString "/logs/a/b") =
        .directory ∧
      (startLogging fileAndDirectory blocked true line).1 = fileAndDirectory ∧
      ∃ way contents, grown.locate (.ofString "//notes") = .ok way ∧
        grown.sightAt way = .file (contents ++ line) := by
  intro below blocked line grown
  have hbelow : Path.Component.parent ∉ below.components := by decide +kernel
  have hblocked : Path.Component.parent ∉ blocked.components := by decide +kernel
  have hstart : (startLogging fileAndDirectory below true line).2 =
      .refused .alreadyLogging := by
    decide +kernel
  have hrefused : (startLogging fileAndDirectory blocked true line).2 =
      .refused (.directoryCreation (.ofString "/notes/a") (.system .notDirectory)) := by
    decide +kernel
  refine ⟨rfl, hbelow, hblocked, hstart, ?_, ?_, ?_⟩
  · refine ((startLogging_makes_directory_or_nothing fileAndDirectory below true line rfl
      hbelow).2.2 ⟨.ofString "/logs/a/b", "run.log"⟩ (by decide +kernel)).2.2.1 ?_
    rw [hstart]
    simp
  · refine (((startLogging_makes_directory_or_nothing fileAndDirectory blocked true line rfl
      hblocked).2.2 ⟨.ofString "/notes/a", "run.log"⟩ (by decide +kernel)).2.1
        ⟨_, _, hrefused⟩).resolve_right ?_
    rintro ⟨-, hlong, -⟩
    revert hlong
    decide +kernel
  · obtain ⟨way, contents, hlocate, hsight, -⟩ :=
      ((startLogging_makes_directory_or_nothing fileAndDirectory (.ofString "/notes") false line
        rfl (by decide +kernel)).2.2 ⟨.ofString "/", "notes"⟩ (by decide +kernel)).2.2.2.2.1
          (by decide +kernel)
    exact ⟨way, contents, hlocate, hsight⟩

/-- A directory that is refused need not have a file above it, and need not leave everything
as it was: the directory before a name of 256 bytes is made, and the one of that name is
not. -/
theorem not_unchanged_of_long_name :
    (¬ ∀ (fs : FileSystem) (path : Path) (logging : Bool) (line : List UInt8),
        fs.sightAt fs.workingDirectory = .directory → .parent ∉ path.components →
        (∃ directory fault, (startLogging fs path logging line).2 =
          .refused (.directoryCreation directory fault)) →
          (startLogging fs path logging line).1 = fs) ∧
      ¬ ∀ (fs : FileSystem) (path : Path) (logging : Bool) (line : List UInt8)
        (target : LogTarget),
        fs.sightAt fs.workingDirectory = .directory → .parent ∉ path.components →
        LogTarget.ofPath path = .ok target →
          ((∃ directory fault, (startLogging fs path logging line).2 =
            .refused (.directoryCreation directory fault)) ↔
              ∃ ancestor ∈ target.directory.ancestors, ∃ contents,
                fs.sightOf ancestor = .file contents) := by
  let fs : FileSystem := { root := .empty, workingDirectory := [] }
  let directory : Path := .ofPieces .root [[0x78], List.replicate 256 0x61]
  let path : Path := .ofPieces .root [[0x78], List.replicate 256 0x61, Text.encode "run.log"]
  have hparent : Path.Component.parent ∉ path.components := by decide +kernel
  have hrefused : (startLogging fs path false []).2 =
      .refused (.directoryCreation directory (.system .nameTooLong)) := by
    decide +kernel
  constructor
  · intro hunchanged
    have hsame := hunchanged fs path false [] rfl hparent ⟨_, _, hrefused⟩
    have hmade : (startLogging fs path false []).1.sightAt [[0x78]] = .directory := by
      decide +kernel
    rw [hsame] at hmade
    cases hmade
  · intro hfiles
    obtain ⟨ancestor, -, contents, hfile⟩ := (hfiles fs path false [] ⟨directory, "run.log"⟩
      rfl hparent (by decide +kernel)).mp ⟨_, _, hrefused⟩
    -- there is no file at all
    obtain ⟨way, -, hsight⟩ :=
      FileSystem.exists_locate_of_sightOf (Sight.ne_nothing_of_file hfile)
    rw [hfile] at hsight
    cases way <;> cases hsight

end MessageExport
