import MessageExport.Settings.File
/-!
# MessageExport.Settings.Resolve

The **settings** of a run, in layers.

At most one settings file is looked at: the one asked for, else the one that the
environment names, else the one at the default place. There is no default place if the
home directory cannot be told, and then no file is looked at. Each setting comes from
the highest layer that sets it: the command line, the environment, the file, the
defaults.
-/

namespace MessageExport

/-- A value of a variable that is no text. -/
structure BrokenText where
  bytes : List UInt8
  broken : Text.decode? bytes = none

/-- The variables of the environment, and the home of the account that runs the
program, if the account has one. -/
structure Environment where
  /-- The variables whose values are texts. -/
  bindings : List (String × String) := []
  accountHome : Option Path := none
  /-- The variables whose values are not. -/
  brokenBindings : List (String × BrokenText) := []

namespace Environment

/-- The value of a variable, if it is a text. -/
def get? (env : Environment) (name : String) : Option String :=
  env.bindings.lookup name

/-- The value of a variable, if it is a text and not empty. -/
def getFilled? (env : Environment) (name : String) : Option String :=
  (env.get? name).filter (· ≠ "")

/-- The path that a variable spells; it need not be a text. -/
def getPath? (env : Environment) (name : String) : Option Path :=
  match env.get? name with
  | some text => some (.ofString text)
  | none => (env.brokenBindings.lookup name).map fun value => ⟨value.bytes⟩

/-- The home directory, if it can be told: the one that the environment names, else that
of the account. -/
def home (env : Environment) : Option Path :=
  match (env.getPath? "HOME").filter (fun home => home.bytes ≠ []) with
  | some home => some home
  | none => env.accountHome

/-- The directory that a variable names by an absolute path, else one in the home
directory, if that can be told. -/
def baseDirectory (env : Environment) (name : String) (inHome : String) : Option Path :=
  match (env.getPath? name).filter Path.isAbsolute with
  | some path => some path
  | none => env.home.map fun home => home.join (.ofString inHome)

/-- The place of the settings file, if there is a directory for it. -/
def defaultSettingsPath (env : Environment) : Option Path :=
  (env.baseDirectory "XDG_CONFIG_HOME" ".config").map fun directory =>
    (directory.join (.ofString "searchexport")).join (.ofString "config.toml")

/-- The place of the log file; without a directory for it, the working directory. -/
def defaultLogPath (env : Environment) : Path :=
  match env.baseDirectory "XDG_STATE_HOME" ".local/state" with
  | some directory => (directory.join (.ofString "searchexport")).join (.ofString "searchexport.log")
  | none => .ofString "searchexport.log"

end Environment

/-- The settings of a run. -/
structure Settings where
  logFile : Path
  /-- Whether the browser takes credentials from a link. -/
  credentialsInUrl : Bool := false
  /-- The fields exported where no table gives any. -/
  defaultFields : List String := ["timestamp", "source", "message"]
  /-- Whether requests are printed over several lines. -/
  pretty : Bool := false
  deriving DecidableEq, Repr

namespace Settings

/-- The settings in diagnostics. -/
def detail (settings : Settings) : String :=
  Text.labelled "ResolvedConfig"
    [("log_file_path", settings.logFile.detail),
      ("credentials_in_url", toString settings.credentialsInUrl),
      ("default_fields", Text.listed (settings.defaultFields.map Text.quoted)),
      ("pretty", toString settings.pretty)]

/-- The variable that names the settings file. -/
def fileVariable : String := "SEARCHEXPORT_CONFIG"

/-- The variable that names the log file. -/
def logVariable : String := "SEARCHEXPORT_LOG_FILE"

/-- The settings where nothing else is said. -/
def defaults (env : Environment) : Settings :=
  { logFile := env.defaultLogPath }

/-- The place of the settings file that is looked at, if one is. -/
def filePath (env : Environment) (asked : Option Path) : Option Path :=
  match asked, env.get? fileVariable with
  | some path, _ => some path
  | none, some named => some (.ofString named)
  | none, none => env.defaultSettingsPath

/-- Settings under those of a file. -/
def underFile (settings : Settings) : Option SettingsFile → Settings
  | none => settings
  | some file =>
      { logFile := file.logFile.getD settings.logFile
        credentialsInUrl := file.credentialsInUrl.getD settings.credentialsInUrl
        defaultFields := file.defaultFields.getD settings.defaultFields
        pretty := file.pretty.getD settings.pretty }

/-- Settings under those of the environment. -/
def underEnvironment (settings : Settings) (env : Environment) : Settings :=
  match env.getFilled? logVariable with
  | some path => { settings with logFile := .ofString path }
  | none => settings

/-- Settings under those of the command line. -/
def underArguments (settings : Settings) (pretty : Option Bool) : Settings :=
  { settings with pretty := pretty.getD settings.pretty }

/-- The settings file that is looked at. -/
def file (env : Environment) (fs : FileSystem) (asked : Option Path) :
    Except SettingsFault (Option SettingsFile) :=
  match filePath env asked with
  | some path => SettingsFile.load fs path
  | none => .ok none

/-- The settings of a run. -/
def resolve (env : Environment) (fs : FileSystem) (asked : Option Path) (pretty : Option Bool) :
    Except SettingsFault Settings := do
  let file ← file env fs asked
  .ok ((((defaults env).underFile file).underEnvironment env).underArguments pretty)

end Settings

end MessageExport
