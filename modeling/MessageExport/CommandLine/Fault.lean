import MessageExport.Export.Fault
import MessageExport.LogFile
import MessageExport.Settings.File
import MessageExport.View.Load
/-!
# MessageExport.CommandLine.Fault

Why a **run** of the program fails.
-/

namespace MessageExport.CommandLine

/-- Why a run fails. -/
inductive RunFault where
  | input (fault : InputFault)
  | exporting (fault : ExportFault)
  | settings (fault : SettingsFault)
  | logging (fault : LogFault)
  | output (fault : IoFault)
  deriving DecidableEq

namespace RunFault

/-- What is said of the cause of a fault. -/
def inner : RunFault → String
  | input fault => fault.message
  | exporting fault => fault.message
  | settings fault => fault.message
  | logging fault => fault.message
  | output fault => fault.message

/-- What is said of a fault. -/
def message : RunFault → String
  | input fault => "Failed to read input: " ++ fault.message
  | exporting fault => "Export failed: " ++ fault.message
  | settings fault => "Configuration error: " ++ fault.message
  | logging fault => "Logging error: " ++ fault.message
  | output fault => "Output error: " ++ fault.message

/-- The fault in diagnostics. -/
def detail : RunFault → String
  | input fault => Text.positional "Input" [fault.detail]
  | exporting fault => Text.positional "Export" [fault.detail]
  | settings fault => Text.positional "Config" [fault.detail]
  | logging fault => Text.positional "Logging" [fault.detail]
  | output fault => Text.positional "Output" [fault.detail]

/-- The fault of the file system behind a fault, if there is one below its cause. -/
def root? : RunFault → Option IoFault
  | input (.io fault) => some fault
  | logging (.directoryCreation _ fault) => some fault
  | _ => none

/-- What is said of a fault, of its cause and of what lies behind that. -/
def chain (fault : RunFault) : List String :=
  [fault.message, fault.inner] ++ (fault.root?.map IoFault.message).toList

end RunFault

end MessageExport.CommandLine
