import MessageExport.CommandLine.Run
import MessageExport.Proofs.LogStart
/-!
# MessageExport.Proofs.CommandLine.Log

What the **log of a run** changes, and what it leaves alone.

A run has told a few events by the time it reads its document. What it told depends on its
arguments and its settings, but where it wrote that does not: the log file is opened in the
same place for every run with the same log path, and from then on nothing but the contents of
that one file can be different (`startRun_of_started`). So a document that is there before the
run is read as it was, unless it is the log file itself (`ApartFromLog`).
-/

namespace MessageExport

open FileSystem (Extends OtherContents)

/-- A document is what is seen at its path. -/
theorem Document.load_congr {fs fs' : FileSystem} {path : Path}
    (h : fs'.sightOf path = fs.sightOf path) : load fs' path = load fs path := by
  unfold load FileSystem.hasPath
  unfold FileSystem.sightOf at h
  cases hlookup : fs.lookup path with
  | none =>
      rw [hlookup] at h
      rw [Sight.of_eq_nothing_iff.mp h]
      rfl
  | some tree =>
      cases hlookup' : fs'.lookup path with
      | none =>
          rw [hlookup, hlookup'] at h
          cases tree <;> cases h
      | some tree' =>
          -- directories may differ in what is in them, but have no text
          have htext : tree'.text = tree.text := by
            rw [hlookup, hlookup'] at h
            cases tree <;> cases tree' <;> cases h <;> rfl
          rw [FileSystem.readText_of_lookup hlookup, FileSystem.readText_of_lookup hlookup',
            htext]
          rfl

namespace CommandLine

variable {arguments arguments' : Arguments} {settings settings' : Settings}
  {around : Surroundings} {files : FileSystem}

theorem tell_eq_append {target : LogTarget} (h : LogTarget.ofPath settings.logFile = .ok target)
    (around : Surroundings) (count : Nat) (events : List Event) (files : FileSystem) :
    tell around settings count events files =
      files.append target.path (around.journal.lines count events) := by
  unfold tell
  rw [h]

/-- If a run starts to log, then so does every run with its log path, and their files are those
of one opened log file but for what is in it. -/
theorem startRun_of_started (h : startRun arguments settings around = (files, .started)) :
    ∃ target opened way, LogTarget.ofPath settings.logFile = .ok target ∧
      Extends around.files opened ∧ opened.locate target.path = .ok way ∧
      OtherContents way opened files ∧
      ∀ arguments' settings', settings'.logFile = settings.logFile →
        ∃ files', startRun arguments' settings' around = (files', .started) ∧
          OtherContents way opened files' := by
  have hstarted : (startLogging around.files settings.logFile false
      (around.journal.line 0 (.loggingStarted settings.logFile))).2 = .started := by
    unfold startRun at h
    split at h
    · rename_i made hstart
      rw [hstart]
    · rename_i hstart
      rw [hstart]
      exact congrArg Prod.snd h
  obtain ⟨target, opened, way, contents, htarget, hextends, hlocate, hfile, hlines⟩ :=
    startLogging_of_started hstarted
  have hruns : ∀ arguments' settings', settings'.logFile = settings.logFile →
      ∃ files', startRun arguments' settings' around = (files', .started) ∧
        OtherContents way opened files' := by
    intro arguments' settings' hsame
    have hopened := FileSystem.otherContents_append hlocate hfile
      (around.journal.line 0 (.loggingStarted settings'.logFile))
    obtain ⟨contents', hfile'⟩ := hopened.after
    unfold startRun
    rw [hsame, hlines, ← hsame]
    refine ⟨_, rfl, hopened.trans ?_⟩
    rw [tell_eq_append (hsame ▸ htarget)]
    exact FileSystem.otherContents_append (hopened.locate_iff.mpr hlocate) hfile' _
  obtain ⟨files', hrun, hcontents⟩ := hruns arguments settings rfl
  rw [h] at hrun
  cases hrun
  exact ⟨target, opened, way, htarget, hextends, hlocate, hcontents, hruns⟩

/-! ### The document -/

/-- The document is not the log file: it comes from the standard input, or its path leads
elsewhere than that of the log file. -/
def ApartFromLog (arguments : Arguments) (settings : Settings) (files : FileSystem) : Prop :=
  arguments.view = inputPath ∨
    ∀ target way, LogTarget.ofPath settings.logFile = .ok target →
      files.locate target.path = .ok way → files.locate arguments.view ≠ .ok way

/-- Whether the document is the log file is the same for all runs that have the same two
paths. -/
theorem ApartFromLog.congr (h : startRun arguments settings around = (files, .started))
    (hapart : ApartFromLog arguments settings files) (hview : arguments'.view = arguments.view)
    (hlog : settings'.logFile = settings.logFile) :
    ∃ files', startRun arguments' settings' around = (files', .started) ∧
      ApartFromLog arguments' settings' files' := by
  obtain ⟨target, opened, way, htarget, -, hlocate, hcontents, hruns⟩ := startRun_of_started h
  obtain ⟨files', hrun, hcontents'⟩ := hruns arguments' settings' hlog
  refine ⟨files', hrun, ?_⟩
  unfold ApartFromLog at hapart ⊢
  rw [hview, hlog]
  refine hapart.imp_right fun hapart other found hother hfound hdocument => ?_
  -- both files lead where the opened log file leads
  rw [hcontents'.locate_iff, ← hcontents.locate_iff] at hfound hdocument
  exact hapart other found hother hfound hdocument

/-- A document that is there before the run is the one that the run reads. -/
theorem loadDocument_of_apart (h : startRun arguments settings around = (files, .started))
    (hapart : ApartFromLog arguments settings files) {input : List UInt8} {document : Document}
    (hdocument : loadDocument arguments around.files input = .ok document) :
    loadDocument arguments files input = .ok document := by
  unfold loadDocument at hdocument ⊢
  by_cases hinput : arguments.view = inputPath
  · rw [if_pos hinput] at hdocument ⊢
    exact hdocument
  · rw [if_neg hinput] at hdocument ⊢
    obtain ⟨target, opened, way, htarget, hextends, hlocate, hcontents, -⟩ := startRun_of_started h
    have hplace : files.locate arguments.view ≠ .ok way :=
      hapart.resolve_left hinput target way htarget (hcontents.locate_iff.mpr hlocate)
    have hsight : around.files.sightOf arguments.view ≠ .nothing := by
      intro hnothing
      unfold Document.load FileSystem.hasPath at hdocument
      rw [Sight.of_eq_nothing_iff.mp hnothing] at hdocument
      cases hdocument
    rw [Document.load_congr ((hcontents.sightOf_eq hplace).trans (hextends.sightOf_eq hsight))]
    exact hdocument

end CommandLine

end MessageExport
