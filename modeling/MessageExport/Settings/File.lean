import MessageExport.Files.System
import MessageExport.Text.Alternatives
import MessageExport.Toml.Document
/-!
# MessageExport.Settings.File

The **settings file**: a TOML document of four optional keys.

The text is first read as TOML, as a whole. Its entries are then gone through in the
order of the file, and the first one that has an unknown key or a value of the
wrong kind is reported. What is said of a fault is its last line: where in the text it
lies, the lines around it, and why a text is no TOML, are left out.
-/

namespace MessageExport

/-- Why the settings cannot be had. -/
inductive SettingsFault where
  /-- The settings file is there but cannot be read. -/
  | unreadable (path : Path) (reason : String)
  /-- The settings file is not TOML, or not what it should say. -/
  | malformed (path : Path) (reason : String)
  deriving DecidableEq, Repr

namespace SettingsFault

/-- What is said of a fault. -/
def message : SettingsFault → String
  | unreadable path reason => "Failed to read config file at " ++ path.text ++ ": " ++ reason
  | malformed path reason => "Invalid TOML in " ++ path.text ++ ": " ++ reason

/-- The fault in diagnostics. -/
def detail : SettingsFault → String
  | unreadable path reason =>
      Text.labelled "ReadError" [("path", path.detail), ("reason", Text.quoted reason)]
  | malformed path reason =>
      Text.labelled "ParseError" [("path", path.detail), ("reason", Text.quoted reason)]

end SettingsFault

/-- What a settings file sets. -/
structure SettingsFile where
  logFile : Option Path := none
  credentialsInUrl : Option Bool := none
  defaultFields : Option (List String) := none
  pretty : Option Bool := none
  deriving DecidableEq, Repr

/-- What is wrong with a settings file. -/
inductive SchemaFault where
  /-- The text is not TOML. -/
  | notToml
  /-- A key that the file cannot set. -/
  | unknownKey (key : String)
  /-- A value of another kind. -/
  | wrongKind (found expected : String)
  deriving DecidableEq, Repr

/-- The keys that a settings file can set. -/
def SettingsFile.keys : List String :=
  ["log_file_path", "credentials_in_url", "default_fields", "pretty"]

/-- What is said of a fault. -/
def SchemaFault.message : SchemaFault → String
  | .notToml => "TOML parse error"
  | .unknownKey key =>
      "unknown field " ++ Text.ticked key ++ ", expected " ++ Text.alternatives SettingsFile.keys
  | .wrongKind found expected => "invalid type: " ++ found ++ ", expected " ++ expected

namespace SettingsFile

open Toml (Item Entries)

/-- An item as a string. -/
def asText (expected : String) : Item → Except SchemaFault String
  | .text value => .ok value
  | item => .error (.wrongKind item.describe expected)

/-- An item as a truth value. -/
def asBoolean : Item → Except SchemaFault Bool
  | .boolean value => .ok value
  | item => .error (.wrongKind item.describe "a boolean")

/-- An item as a list of strings. -/
def asTexts : Item → Except SchemaFault (List String)
  | .array elements => elements.mapM (asText "a string")
  | .tables elements =>
      elements.mapM fun entries => asText "a string" (.table .header entries)
  | item => .error (.wrongKind item.describe "a sequence")

/-- Take up an entry. -/
def set (file : SettingsFile) (key : String) (item : Item) : Except SchemaFault SettingsFile :=
  match key with
  | "log_file_path" => do
      let path ← asText "path string" item
      .ok { file with logFile := some (.ofString path) }
  | "credentials_in_url" => do
      let value ← asBoolean item
      .ok { file with credentialsInUrl := some value }
  | "default_fields" => do
      let fields ← asTexts item
      .ok { file with defaultFields := some fields }
  | "pretty" => do
      let value ← asBoolean item
      .ok { file with pretty := some value }
  | key => .error (.unknownKey key)

/-- The file that entries describe. -/
def ofEntries (entries : Entries) : Except SchemaFault SettingsFile :=
  entries.foldlM (fun file entry => file.set entry.1 entry.2) {}

/-- The file that a text describes. -/
def ofString (text : String) : Except SchemaFault SettingsFile :=
  match Toml.parse? text with
  | none => .error .notToml
  | some entries => ofEntries entries

/-- The settings file at a path; nothing if there is none. -/
def load (fs : FileSystem) (path : Path) : Except SettingsFault (Option SettingsFile) :=
  if fs.hasPath path then do
    let text ← (fs.readText path).mapError fun fault => .unreadable path fault.message
    let file ← (ofString text).mapError fun fault =>
      .malformed path (fault.message)
    .ok (some file)
  else .ok none

end SettingsFile

end MessageExport
