/-
# The program

Hands the command line, the standard input and what the file system holds of the paths that it
names to `CommandLine.run`, and carries out what that says.
-/
import TraceLift.CommandLine.Run

open TraceLift TraceLift.CommandLine

/-- The paths that a command line names. -/
def namedPaths (steps : List Step) : List String :=
  steps.flatMap fun step =>
    match step with
    | .openFiles input output => input.toList ++ output.toList
    | .give .tsv values => values
    | _ => []

/-- The files among some paths, as far as they can be read. -/
def readFiles (paths : List String) : IO (List (String × String)) :=
  paths.filterMapM fun (path : String) => do
    try
      return some (path, ← IO.FS.readFile path)
    catch _ =>
      return none

/-- The folders along some paths. -/
def findFolders (paths : List String) : IO (List String) :=
  (paths.flatMap Directory.stations).filterM fun (path : String) => do
    try
      let _ ← IO.FS.realPath (path ++ "/.")
      return true
    catch _ =>
      return false

/-- What the file system holds of some paths. -/
def look (paths : List String) : IO Directory := do
  let directory := Directory.ofFiles (← readFiles paths)
  return { directory with folders := (← findFolders paths).map Directory.locate }

/-- Writes files, with the folders they need. -/
def writeFiles (files : List (String × String)) : IO Unit :=
  for (path, text) in files do
    let folder := (Text.split '/' path).dropLast
    unless folder.isEmpty do
      IO.FS.createDirAll (String.intercalate "/" folder)
    IO.FS.writeFile path text

/-- The program. -/
def main (words : List String) : IO UInt32 := do
  let before ← look (namedPaths (steps words))
  let stdin ← if readsStdin words before then (← IO.getStdin).readToEnd else pure ""
  let outcome := run words stdin before
  writeFiles (outcome.directory.changes before)
  IO.print outcome.stdout
  IO.eprint outcome.log
  match outcome.ending with
  | .exit code => return code.toUInt32
  | .failure fault =>
    IO.eprintln (fault.message.getD "failed")
    return 1
