import MessageExport.CommandLine.Run
/-!
# MessageExport.Main

The program. It takes a picture of the files that a run can look at, calls the
library on it, makes the files and directories that the run has made, and prints.
-/

namespace MessageExport.Main

open CommandLine

/-- What lies at a path: a file with its contents, or a directory, here without entries. -/
def probe (path : String) : IO (Option FileTree) := do
  try
    let contents ← IO.FS.readBinFile path
    return some (.file contents.toList)
  catch
    | .inappropriateType _ 21 _ => return some .empty
    | _ => return none

/-- The path that a way of names stands for. -/
def pathOf (way : List Piece) : String :=
  "/" ++ String.intercalate "/" (way.map Text.decodeLossy)

/-- The ways that are passed when moves are followed. -/
def waysAlong : List Piece → List Path.Component → List (List Piece)
  | way, [] => [way]
  | way, .name piece :: moves => way :: waysAlong (way ++ [piece]) moves
  | way, .parent :: moves => way :: waysAlong way.dropLast moves
  | way, _ :: moves => waysAlong way moves

/-- The ways that are passed on a path. -/
def waysOf (fs : FileSystem) (path : Path) : List (List Piece) :=
  waysAlong (fs.start path) path.moves

/-- Add what lies along a path to a picture of the files. -/
def look (fs : FileSystem) (path : Path) : IO FileSystem :=
  (waysOf fs path).foldlM
    (fun fs way => do
      if (fs.at? way).isSome then return fs
      match ← probe (pathOf way) with
      | some tree => return fs.put way tree
      | none => return fs)
    fs

/-- Make what a run has added along a path: directories, and what was written to a file. -/
def make (before after : FileSystem) (path : Path) : IO Unit :=
  (waysOf before path).forM fun way => do
    match before.at? way, after.at? way with
    | none, some (.directory _) => IO.FS.createDirAll (pathOf way)
    | none, some (.file contents) => IO.FS.writeBinFile (pathOf way) ⟨contents.toArray⟩
    | some (.file old), some (.file contents) =>
        unless old = contents do IO.FS.writeBinFile (pathOf way) ⟨contents.toArray⟩
    | _, _ => return ()

/-- The variables that the program looks at. -/
def variableNames : List String :=
  ["HOME", "XDG_CONFIG_HOME", "XDG_STATE_HOME", Settings.fileVariable, Settings.logVariable]

/-- The environment of the program. It does not know of accounts, only of variables. -/
def environment : IO Environment := do
  let bindings ← variableNames.filterMapM fun name => do
    return (← IO.getEnv name).map fun value => (name, value)
  return { bindings }

/-- A picture of the files before anything is looked at: the way to the working directory. -/
def blank : IO FileSystem := do
  let here := Path.ofString (toString (← IO.currentDir))
  let way := here.moves.filterMap fun
    | .name piece => some piece
    | _ => none
  return { root := FileTree.empty.put way .empty, workingDirectory := way }

/-- The log of the program tells what matters, without the time. -/
def journal : Journal :=
  .plain (fun level => level ≠ .debug) fun _ => ""

/-- Call the program. -/
def callProgram (arguments : List String) : IO Outcome := do
  let environment ← environment
  let files ← blank
  match Arguments.ofList arguments with
  | .error _ => return call arguments { environment, files }
  | .ok parsed =>
      let files ← (Settings.filePath environment parsed.config).elim (pure files) (look files)
      let files ← look files parsed.view
      let log :=
        match Settings.resolve environment files parsed.config none with
        | .ok settings => settings.logFile
        | .error _ => parsed.view
      let files ← look files log
      let input ←
        if parsed.view = inputPath then (← IO.getStdin).readBinToEnd else pure .empty
      let outcome := call arguments { environment, files, input := input.toList, journal }
      make files outcome.files log
      return outcome

end MessageExport.Main

/-- Run the program with the arguments of its command line. -/
def main (arguments : List String) : IO UInt32 := do
  let outcome ← MessageExport.Main.callProgram arguments
  (← IO.getStdout).putStr outcome.output
  (← IO.getStderr).putStr outcome.diagnostics
  return UInt32.ofNat outcome.exitCode
