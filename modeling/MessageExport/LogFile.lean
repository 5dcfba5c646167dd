import MessageExport.Files.System
/-!
# MessageExport.LogFile

The **log file**: where it lies, and what starting to log does to the file system.

The path of a log file is split into the directory to be made and the name of the
file in it, before anything is touched. A path that does not end in a name is
refused. That logging has started is the first thing that the log tells.
-/

namespace MessageExport

/-- Why logging cannot be started. -/
inductive LogFault where
  /-- The directory of the log file cannot be made. -/
  | directoryCreation (path : Path) (fault : IoFault)
  /-- The path does not end in the name of a file. -/
  | invalidPath (path : Path)
  /-- The path has no directory. -/
  | noParentDirectory (path : Path)
  /-- Something else logs already. -/
  | alreadyLogging
  deriving DecidableEq, Repr

namespace LogFault

/-- What is said of a fault. -/
def message : LogFault → String
  | directoryCreation path fault =>
      "Failed to create log directory at " ++ path.detail ++ ": " ++ fault.message
  | invalidPath path => "Invalid log file path: " ++ path.detail
  | noParentDirectory path => "Log path has no parent directory: " ++ path.detail
  | alreadyLogging => "Tracing subscriber already initialized"

/-- The fault in diagnostics. -/
def detail : LogFault → String
  | directoryCreation path fault =>
      Text.labelled "DirectoryCreation" [("path", path.detail), ("source", fault.detail)]
  | invalidPath path => Text.positional "InvalidPath" [path.detail]
  | noParentDirectory path => Text.positional "NoParentDirectory" [path.detail]
  | alreadyLogging => "SubscriberAlreadySet"

end LogFault

/-- Where a log file lies. -/
structure LogTarget where
  directory : Path
  /-- The name of the file in the directory. -/
  fileName : String
  deriving DecidableEq, Repr

/-- Split the path of a log file. A path of one name lies in the working directory. -/
def LogTarget.ofPath (path : Path) : Except LogFault LogTarget :=
  match path.fileName?.bind Text.decode? with
  | none => .error (.invalidPath path)
  | some fileName =>
      match path.parent? with
      | none => .error (.noParentDirectory path)
      | some parent =>
          .ok ⟨if parent.bytes = [] then ⟨Path.dot⟩ else parent, fileName⟩

/-- The path of the log file. -/
def LogTarget.path (target : LogTarget) : Path :=
  target.directory.join (.ofString target.fileName)

/-- What comes of an attempt to start logging. -/
inductive LogStart where
  | started
  | refused (fault : LogFault)
  /-- The log file cannot be opened, which ends the program. -/
  | aborted
  deriving DecidableEq, Repr

/-- Start to log to a path, unless something else does already: its directory is made
first, then the file, and the first line is written at its end. -/
def startLogging (fs : FileSystem) (path : Path) (logging : Bool) (line : List UInt8) :
    FileSystem × LogStart :=
  match LogTarget.ofPath path with
  | .error fault => (fs, .refused fault)
  | .ok target =>
      match fs.makeDirectories target.directory with
      | (made, .error fault) =>
          (made, .refused (.directoryCreation target.directory fault))
      | (made, .ok ()) =>
          match made.ensureFile target.path with
          | .error _ => (made, .aborted)
          | .ok opened =>
              if logging then (opened, .refused .alreadyLogging)
              else (opened.append target.path line, .started)

end MessageExport
