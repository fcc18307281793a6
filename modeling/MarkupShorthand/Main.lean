import MarkupShorthand.CommandLine.Run

/-!
# The program

Reads the settings files that the arguments name and, where it is asked for, the input; prints what
`MarkupShorthand.start` comes to.
-/

namespace MarkupShorthand.Program

/-- The text of a file, if there is one that can be read. -/
def readText (path : String) : IO (Option String) := do
  try return some (← IO.FS.readFile path) catch _ => return none

/-- The paths that lead to a path, one name after the other. -/
def leading (path : String) : List String :=
  let names := FilePath.names path
  (List.range names.length).map fun n => "/".intercalate (names.take n)

/-- The files at some paths, those that stand in for them, and the directories on the way. -/
def readSettings (paths : List String) : IO Files := do
  let current ← IO.currentDir
  let mut files : Files := { workingDirectory := current.toString }
  let named := paths.map files.absolute
  for path in named ++ named.filterMap FilePath.toml? do
    for above in leading path do
      if ← (current / (above ++ "/")).isDir then
        files := { files with directories := files.directories ++ [above ++ "/"] }
    match ← readText path with
    | some text => files := { files with entries := files.entries ++ [(path, text)] }
    | none =>
      if (← (current / path).pathExists) && !(← (current / path).isDir) then
        files := { files with unreadable := files.unreadable ++ [path] }
  return files

/-- What the environment lets through to the log, if it names a level for the whole program. -/
def admitted : IO (LogEntry → Bool) := do
  let wanted := (← IO.getEnv "RUST_LOG").map Text.lower
  return fun entry => wanted == some "trace" || (wanted == some "debug" && entry.level == .debug)

/-- Prints an outcome and gives its code. -/
def report (outcome : Outcome) : IO UInt32 := do
  (← IO.getStdout).putStr outcome.output
  (← IO.getStderr).putStr (outcome.stderr fun _ entry => entry.text ++ "\n")
  return outcome.code.toUInt32

/-- The files that arguments ask for. -/
def settingsPaths (arguments : List String) : List String :=
  match Request.ofArguments arguments with
  | .ok (.run inv) => inv.layers.filterMap fun
    | .file path _ => some path
    | .value _ _ => none
  | _ => []

end MarkupShorthand.Program

open MarkupShorthand MarkupShorthand.Program in
/-- Runs the program. -/
def main (arguments : List String) : IO UInt32 := do
  let files ← readSettings (settingsPaths arguments)
  match start arguments files (← admitted) with
  | .finished outcome => report outcome
  | .awaitsInput next => report (next (← (← IO.getStdin).readBinToEnd))
