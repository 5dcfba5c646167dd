import MessageExport.Proofs.Files.Sight
import MessageExport.Settings.Resolve
/-!
# MessageExport.Proofs.Settings.Layers

**The layers of the settings of a run.**

There is at most one place at which a settings file is looked for, and of all files only what
is seen at that place has a say (`resolve_eq`): a file at a place of lower rank is not even
looked at when the one place is empty, and cannot make up for a file there that is broken.
Without a place, because nothing names one and the home directory cannot be told, no file has
a say. Each setting is then taken from the highest layer that sets it, whatever the layers say
of the other settings (`layered`).

What follows is read off `resolve_eq`. That two runs agree is always shown in the same way:
either the place and what is seen at it are the same, or the environments agree on the five
variables that the place and the settings are made from.
-/

namespace MessageExport

/-- What is seen at the place of the settings file, as settings: nothing sets nothing, and
what is there has to be a readable text of settings. -/
def SettingsFile.ofSight (path : Path) : Sight → Except SettingsFault (Option SettingsFile)
  | .nothing => .ok none
  | .directory => .error (.unreadable path (IoFault.system .isDirectory).message)
  | .file contents =>
      match Text.decode? contents with
      | none => .error (.unreadable path IoFault.notText.message)
      | some text =>
          match SettingsFile.ofString text with
          | .error fault => .error (.malformed path fault.message)
          | .ok file => .ok (some file)

theorem SettingsFile.load_eq_ofSight (fs : FileSystem) (path : Path) :
    load fs path = ofSight path (fs.sightOf path) := by
  unfold load FileSystem.hasPath FileSystem.sightOf
  cases hlookup : fs.lookup path with
  | none => rfl
  | some tree =>
      rw [FileSystem.readText_of_lookup hlookup, Option.isSome_some, if_pos rfl]
      cases tree with
      | directory entries => rfl
      | file contents =>
          show _ = ofSight path (.file contents)
          rw [FileTree.text, ofSight]
          cases Text.decode? contents with
          | none => rfl
          | some text =>
              show ((ofString text).mapError _ >>= fun file => Except.ok (some file)) = _
              dsimp only
              cases ofString text <;> rfl

namespace Environment

end Environment

namespace Settings

/-- The settings, each from the highest layer that sets it: the command line, the
environment, the file, the defaults. -/
def layered (env : Environment) (pretty : Option Bool) (file : Option SettingsFile) :
    Settings where
  logFile := ((env.getFilled? logVariable).map Path.ofString).getD
    ((file.bind SettingsFile.logFile).getD env.defaultLogPath)
  credentialsInUrl := (file.bind SettingsFile.credentialsInUrl).getD false
  defaultFields :=
    (file.bind SettingsFile.defaultFields).getD ["timestamp", "source", "message"]
  pretty := pretty.getD ((file.bind SettingsFile.pretty).getD false)

/-- Laying the settings over each other, from the defaults up, picks each one from the
highest layer. -/
theorem under_eq_layered (env : Environment) (pretty : Option Bool)
    (file : Option SettingsFile) :
    (((defaults env).underFile file).underEnvironment env).underArguments pretty =
      layered env pretty file := by
  unfold underArguments underEnvironment underFile defaults layered
  cases env.getFilled? logVariable <;> cases file <;> rfl

/-! ### The one place -/

/-- The settings of a run are those of the one file that is looked at, with the other layers
over it and under it. -/
theorem resolve_eq (env : Environment) (fs : FileSystem) (asked : Option Path)
    (pretty : Option Bool) :
    resolve env fs asked pretty = (file env fs asked).map (layered env pretty) := by
  unfold resolve
  cases file env fs asked with
  | error fault => rfl
  | ok file =>
      show Except.ok _ = Except.ok _
      rw [under_eq_layered]

end Settings

end MessageExport
