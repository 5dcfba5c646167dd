import MessageExport.CommandLine.Arguments
import MessageExport.CommandLine.Fault
import MessageExport.CommandLine.Listing
import MessageExport.Event
import MessageExport.Json.Printer
import MessageExport.Wire.Encode
/-!
# MessageExport.CommandLine.Run

A **run** of the program: from arguments and files to what is printed.

A run resolves the settings, starts to log, loads the document and opens a dialog
on it. It then lists what can be exported, or takes the steps that the arguments
ask for and prints the request. The first fault ends the run.

The log is written as the run goes on. Its first lines are there before the document is
read, so a run whose log file is its document reads these lines as well.
-/

namespace MessageExport.CommandLine

/-- The name and the version of the program. -/
def versionText : String := "searchexport " ++ version

/-- How the program is called. -/
def usageText : String := "Usage: searchexport [OPTIONS] <VIEW>"

/-- What a run finds when it begins. -/
structure Surroundings where
  environment : Environment
  files : FileSystem
  /-- The standard input. -/
  input : List UInt8 := []
  /-- How the events of the run are written down in its log. -/
  journal : Journal := Journal.silent

/-- What a run leaves behind. -/
structure Outcome where
  exitCode : Nat
  output : String := ""
  diagnostics : String := ""
  /-- The files after the run. -/
  files : FileSystem

/-- The path that stands for the standard input. -/
def inputPath : Path := .ofString "-"

/-- The document that the arguments name. -/
def loadDocument (arguments : Arguments) (files : FileSystem) (input : List UInt8) :
    Except InputFault Document :=
  if arguments.view = inputPath then Document.ofBytes input
  else Document.load files arguments.view

/-- The sort order that the arguments ask for, in the direction of the dialog, or from
the largest down if that has none. -/
def sortOf (dialog : Dialog) (names : List String) : List SortEntry :=
  names.map fun field => ⟨field, dialog.sortDirection.getD .descending⟩

/-- The dialog with the selections and settings of the arguments. -/
def prepare (arguments : Arguments) (dialog : Dialog) : Except ExportFault Dialog := do
  let dialog ← match arguments.widget with
    | some id => dialog.selectTable id
    | none => .ok dialog
  let dialog := match arguments.fields with
    | some names => dialog.selectFields names
    | none => dialog
  let dialog :=
    if arguments.sort = [] then dialog else dialog.setSort (sortOf dialog arguments.sort)
  .ok (match arguments.direction with
    | some direction => dialog.setSortDirection direction
    | none => dialog)

/-- The requests as they are printed. -/
def requestsText (pretty : Bool) (requests : List Request) : String :=
  (Wire.listTree Request.toJson requests).render
    (if pretty then Json.Layout.pretty else Json.Layout.compact) ++ "\n"

/-- What a run with these settings prints for a document. -/
def report (arguments : Arguments) (settings : Settings) (document : Document) :
    Except ExportFault String :=
  let dialog := Dialog.ofView document.view arguments.fixedWidget settings.defaultFields
  if arguments.list then
    .ok (linesText (listing dialog document settings.credentialsInUrl))
  else do
    let dialog ← prepare arguments dialog
    let started ← dialog.download document.view
    .ok (requestsText settings.pretty (recorder.take started.request []))

/-- What a run prints once it logs. -/
def respond (arguments : Arguments) (settings : Settings) (files : FileSystem)
    (input : List UInt8) : Except RunFault String := do
  let document ← (loadDocument arguments files input).mapError .input
  (report arguments settings document).mapError .exporting

/-! ### The log -/

/-- What happens when a run turns to its document: it is read if it is there. -/
def readingEvents (arguments : Arguments) (files : FileSystem) : List Event :=
  if arguments.view = inputPath then [.readingInput]
  else if files.hasPath arguments.view then [.readingDocument arguments.view]
  else []

/-- What happens in a run until it has read its document, but for the start of the log. -/
def earlyEvents (arguments : Arguments) (settings : Settings) (files : FileSystem) :
    List Event :=
  .settingsResolved settings :: readingEvents arguments files

/-- What happens when the dialog of a run is prepared. -/
def prepareEvents (arguments : Arguments) (dialog : Dialog) : List Event :=
  match arguments.widget with
  | some id => dialog.selectionEvents id
  | none => []

/-- What happens in a run that has its document. -/
def reportEvents (arguments : Arguments) (settings : Settings) (document : Document) :
    List Event :=
  let dialog := Dialog.ofView document.view arguments.fixedWidget settings.defaultFields
  dialog.openingEvents document.view ++
    if arguments.list then []
    else
      prepareEvents arguments dialog ++
        match prepare arguments dialog with
        | .error _ => []
        | .ok prepared => prepared.downloadEvents document.view

/-- What happens in a run once its document is read, if that is one. -/
def lateEvents (arguments : Arguments) (settings : Settings) (files : FileSystem)
    (input : List UInt8) : List Event :=
  match loadDocument arguments files input with
  | .error _ => []
  | .ok document => reportEvents arguments settings document

/-- Write events to the log of a run, after so many others. -/
def tell (around : Surroundings) (settings : Settings) (count : Nat) (events : List Event)
    (files : FileSystem) : FileSystem :=
  match LogTarget.ofPath settings.logFile with
  | .error _ => files
  | .ok target => files.append target.path (around.journal.lines count events)

/-- Start to log, and tell what happens until the document is read. -/
def startRun (arguments : Arguments) (settings : Settings) (around : Surroundings) :
    FileSystem × LogStart :=
  match startLogging around.files settings.logFile false
      (around.journal.line 0 (.loggingStarted settings.logFile)) with
  | (files, .started) =>
      (tell around settings 1 (earlyEvents arguments settings files) files, .started)
  | (files, ended) => (files, ended)

/-- Tell what happens from then on. -/
def finishRun (arguments : Arguments) (settings : Settings) (around : Surroundings)
    (files : FileSystem) : FileSystem :=
  tell around settings (1 + (earlyEvents arguments settings files).length)
    (lateEvents arguments settings files around.input) files

/-! ### The run -/

/-- A run that ends with a fault. -/
def failedRun (files : FileSystem) (fault : RunFault) : Outcome :=
  { exitCode := 1, diagnostics := "Error: " ++ fault.detail ++ "\n", files }

/-- A run with given arguments. -/
def run (arguments : Arguments) (around : Surroundings) : Outcome :=
  match Settings.resolve around.environment around.files arguments.config
      (if arguments.pretty then some true else none) with
  | .error fault => failedRun around.files (.settings fault)
  | .ok settings =>
      match startRun arguments settings around with
      | (files, .refused fault) => failedRun files (.logging fault)
      | (files, .aborted) => { exitCode := 101, files }
      | (files, .started) =>
          let finished := finishRun arguments settings around files
          match respond arguments settings files around.input with
          | .error fault => failedRun finished fault
          | .ok output => { exitCode := 0, output, files := finished }

/-- A call of the program. A mistake in the arguments ends it before anything else. The
arguments are texts here; a path that is none cannot be given. -/
def call (arguments : List String) (around : Surroundings) : Outcome :=
  match Arguments.ofList arguments with
  | .ok arguments => run arguments around
  | .error .version => { exitCode := 0, output := versionText ++ "\n", files := around.files }
  | .error .help => { exitCode := 0, output := usageText ++ "\n", files := around.files }
  | .error (.usage _) => { exitCode := 2, files := around.files }

end MessageExport.CommandLine
