import PhpInspect.Config.Basic
import PhpInspect.FileSystem

/-! # Configuration files -/

namespace PhpInspect

inductive LoadError where
  | unreadable (path : String) (fault : FileFault)
  | unparsable (path : String) (error : ConfigError)

namespace LoadError

def cause : LoadError → String
  | .unreadable _ fault => fault.message
  | .unparsable _ error => "TOML parse error: " ++ error.message

def summary : LoadError → String
  | .unreadable path _ => "Failed to read config file " ++ path
  | .unparsable path _ => "Failed to parse " ++ path

def message (e : LoadError) : String := e.summary ++ ": " ++ e.cause

end LoadError

namespace Config

def fileName : String := ".messdetector.toml"

def loadPath (fs : FileSystem) (path : String) : Logged (Except LoadError Config) := do
  Logged.notes (Log.configLoad path)
  match fs.readText path with
  | .error fault => return .error (.unreadable path fault)
  | .ok text =>
    match ofText text with
    | .error e => return .error (.unparsable path e)
    | .ok c => return .ok c

/-- A directory and those above it, at most `bound`. -/
def upward : Nat → String → List String
  | 0, directory => [directory]
  | bound + 1, directory =>
    match Path.parent? directory with
    | none => [directory]
    | some above => directory :: upward bound above

def findFrom (fs : FileSystem) (directory : String) : Option String :=
  ((upward (Path.components directory).length directory).map fun d => Path.join d fileName).find? fs.pathExists

/-- The configuration that holds for a directory with its path, if there is one. -/
def loadFrom (fs : FileSystem) (directory : String) : Logged (Except LoadError (Option (Config × String))) :=
  match findFrom fs directory with
  | none => pure (.ok none)
  | some path => do return (← loadPath fs path).map fun c => some (c, path)

end Config

end PhpInspect
