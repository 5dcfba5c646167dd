import MessageExport.Files.System
import MessageExport.Wire.Decode
/-!
# MessageExport.View.Load

Where **documents** come from: a text, the bytes of a stream, or a file.
-/

namespace MessageExport

/-- Why there is no document. -/
inductive InputFault where
  /-- There is no such file. -/
  | fileNotFound (path : Path)
  /-- The file or stream cannot be read. -/
  | io (fault : IoFault)
  /-- The text is not a document. -/
  | invalidDocument (message : String)
  deriving DecidableEq, Repr

namespace InputFault

/-- What is said of a fault. -/
def message : InputFault → String
  | fileNotFound path => "File not found: " ++ path.text
  | io fault => "IO error: " ++ fault.message
  | invalidDocument message => "Invalid view document: " ++ message

/-- The fault in diagnostics. -/
def detail : InputFault → String
  | fileNotFound path => Text.labelled "FileNotFound" [("path", path.detail)]
  | io fault => Text.positional "Io" [fault.detail]
  | invalidDocument message => Text.labelled "InvalidJson" [("message", Text.quoted message)]

end InputFault

namespace Document

/-- The document that a text describes. -/
def ofString (text : String) : Except InputFault Document :=
  (Wire.decodeText (.record .document) text.toList).mapError fun failure =>
    .invalidDocument (failure.message text.toList)

/-- The document that bytes describe. -/
def ofBytes (bytes : List UInt8) : Except InputFault Document :=
  match Text.decode? bytes with
  | none => .error (.io .notText)
  | some text => ofString text

/-- The document in a file. -/
def load (fs : FileSystem) (path : Path) : Except InputFault Document :=
  if fs.hasPath path then do
    let text ← (fs.readText path).mapError .io
    ofString text
  else .error (.fileNotFound path)

end Document

end MessageExport
