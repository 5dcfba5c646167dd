import MessageExport.Text.Structure
/-!
# MessageExport.Files.Fault

Why **files and streams** cannot be read or written.
-/

namespace MessageExport

/-- A fault that the operating system reports. -/
inductive SystemFault where
  | notFound
  | permissionDenied
  | alreadyExists
  | notDirectory
  | isDirectory
  | brokenPipe
  | nameTooLong
  deriving DecidableEq, Repr

namespace SystemFault

/-- The number of a fault. -/
def code : SystemFault → Nat
  | notFound => 2
  | permissionDenied => 13
  | alreadyExists => 17
  | notDirectory => 20
  | isDirectory => 21
  | brokenPipe => 32
  | nameTooLong => 36

/-- The name of a fault. -/
def kind : SystemFault → String
  | notFound => "NotFound"
  | permissionDenied => "PermissionDenied"
  | alreadyExists => "AlreadyExists"
  | notDirectory => "NotADirectory"
  | isDirectory => "IsADirectory"
  | brokenPipe => "BrokenPipe"
  | nameTooLong => "InvalidFilename"

/-- What is said of a fault. -/
def message : SystemFault → String
  | notFound => "No such file or directory"
  | permissionDenied => "Permission denied"
  | alreadyExists => "File exists"
  | notDirectory => "Not a directory"
  | isDirectory => "Is a directory"
  | brokenPipe => "Broken pipe"
  | nameTooLong => "File name too long"

/-- All faults. -/
def all : List SystemFault :=
  [notFound, permissionDenied, alreadyExists, notDirectory, isDirectory, brokenPipe,
    nameTooLong]

end SystemFault

/-- Why something cannot be read or written. -/
inductive IoFault where
  /-- The operating system refuses. -/
  | system (fault : SystemFault)
  /-- The bytes are not UTF-8. -/
  | notText
  /-- A path has a zero byte, with which the operating system ends a path. -/
  | zeroByte
  /-- Another fault, by the name of its kind and in its own words. -/
  | other (kind text : String)
  deriving DecidableEq, Repr

namespace IoFault

/-- What is said of bytes that are not UTF-8. -/
def notTextMessage : String := "stream did not contain valid UTF-8"

/-- What is said of a path with a zero byte. -/
def zeroByteMessage : String := "file name contained an unexpected NUL byte"

/-- What is said of a fault. -/
def message : IoFault → String
  | system fault => fault.message ++ " (os error " ++ toString fault.code ++ ")"
  | notText => notTextMessage
  | zeroByte => zeroByteMessage
  | other _ text => text

/-- The fault in diagnostics. -/
def detail : IoFault → String
  | system fault =>
      Text.labelled "Os"
        [("code", toString fault.code), ("kind", fault.kind),
          ("message", Text.quoted fault.message)]
  | notText =>
      Text.labelled "Error" [("kind", "InvalidData"), ("message", Text.quoted notTextMessage)]
  | zeroByte =>
      Text.labelled "Error" [("kind", "InvalidInput"), ("message", Text.quoted zeroByteMessage)]
  | other kind text => Text.labelled "Custom" [("kind", kind), ("error", Text.quoted text)]

end IoFault

end MessageExport
