import PhpInspect.Clock
import PhpInspect.CommandLine.Run

/-! # The program

Reads the files that a run may look at, runs, and prints and writes what comes of it.
-/

namespace PhpInspect.CommandLine

def usage : String :=
  "Usage: messdetector [OPTIONS] <PATHS>...\n\n" ++
  "  --format <FORMAT>     text, raw, json or github\n" ++
  "  --config <PATH>       the configuration file\n" ++
  "  --no-config           no configuration file\n" ++
  "  -r, --rule <RULE>     a rule to run\n" ++
  "  --ignore-preg-match   the third argument of preg_match is defined\n" ++
  "  --debug-log [<FILE>]  write a log\n" ++
  "  -v, --verbose         say what is done\n" ++
  "  --list-rules          list the rules\n"

def namesFrom (home : List String) (path : String) : List String :=
  (Path.components path).foldl
    (fun names c =>
      match c with
      | .root => []
      | .here => names
      | .up => names.dropLast
      | .name s => names ++ [s]) home

partial def entriesBelow (names : List String) (found : IO.FS.DirEntry) :
    IO (List (List String × FileEntry)) := do
  let names := names ++ [found.fileName]
  if ← found.path.isDir then
    let inner ← (← found.path.readDir).toList.mapM (entriesBelow names)
    return (names, .directory) :: inner.flatten
  else
    try return [(names, .file (← IO.FS.readBinFile found.path))]
    catch _ => return []

/-- What lies at a path; a directory with everything below it if `deep`. -/
def entriesAt (home : List String) (deep : Bool) (path : String) : IO (List (List String × FileEntry)) := do
  let names := namesFrom home path
  let full := (← IO.currentDir) / path
  if ← full.isDir then
    if deep then
      let inner ← (← full.readDir).toList.mapM (entriesBelow names)
      return (names, .directory) :: inner.flatten
    else return [(names, .directory)]
  else if ← full.pathExists then
    try return [(names, .file (← IO.FS.readBinFile full))]
    catch _ => return []
  else return []

/-- The files that a run with some arguments may look at. -/
def snapshot (args : Arguments) (usualLog : String) : IO FileSystem := do
  let here := (← IO.currentDir).toString
  let home := namesFrom [] here
  let configs := (Config.upward home.length here).map fun d => Path.join d Config.fileName
  let logs := args.debugLog.toList.map fun wanted => wanted.getD usualLog
  let shallow := args.config.toList ++ configs ++ logs ++ logs.filterMap Path.parent?
  let wide ← args.paths.mapM (entriesAt home true)
  let narrow ← (shallow.filter fun p => !p.isEmpty).mapM (entriesAt home false)
  return .ofEntries (wide.flatten ++ narrow.flatten) home

/-- Writes the log. Every message carries the moment at which the file was made. -/
def writeLog (path : String) (messages : List String) : IO Unit := do
  IO.FS.writeFile path ""
  let made := (← ((← IO.currentDir) / path).metadata).modified
  let stamp := Clock.text made.sec.toNat (made.nsec.toNat / 1000000)
  IO.FS.writeFile path (String.join (messages.map fun m => "[" ++ stamp ++ "] " ++ m ++ "\n"))

end PhpInspect.CommandLine

open PhpInspect.CommandLine in
def main (args : List String) : IO UInt32 := do
  match Arguments.ofList args with
  | .error .usage =>
    IO.eprint usage
    return 2
  | .error .help =>
    IO.print usage
    return 0
  | .error .version =>
    IO.print versionLine
    return 0
  | .ok arguments =>
    let usualLog := "/tmp/messdetector.log"
    let outcome := run (← snapshot arguments usualLog) arguments usualLog
    IO.print outcome.stdout
    IO.eprint outcome.stderr
    match outcome.log with
    | some (path, messages) => writeLog path messages
    | none => pure ()
    return outcome.code.toUInt32
