import PhpInspect.Analysis
import PhpInspect.CommandLine.Arguments
import PhpInspect.Config.Load
import PhpInspect.Report.Format

/-! # A run of the command line

What a run prints, logs and answers, given the files it can see.
-/

namespace PhpInspect.CommandLine

structure Transcript where
  stdout : String := ""
  stderr : String := ""
  messages : List String := []
  /-- The file for the log, if there is one. -/
  log : Option String := none

structure Outcome where
  code : Nat
  stdout : String
  stderr : String
  /-- The file for the log with its messages. -/
  log : Option (String × List String)

/-- A part of a run, which may end it with an exit code. -/
abbrev Session := ExceptT Nat (StateM Transcript)

namespace Session

variable {α : Type}

def print (text : String) : Session Unit := modify fun t => { t with stdout := t.stdout ++ text }

def printLine (line : String) : Session Unit := print (line ++ "\n")

def warn (line : String) : Session Unit := modify fun t => { t with stderr := t.stderr ++ line ++ "\n" }

def fail (complaint : String) : Session α := do
  warn ("Error: " ++ complaint)
  throw 1

def logged (x : Logged α) : Session α := do
  modify fun t => { t with messages := t.messages ++ x.messages }
  return x.value

def outcome (session : Session Nat) : Outcome :=
  let (result, t) := (session.run).run {}
  { code := match result with
      | .ok code => code
      | .error code => code
    stdout := t.stdout
    stderr := t.stderr
    log := t.log.map fun path => (path, t.messages) }

end Session

open Session

def ruleList : String :=
  String.join ("Available rules:\n" :: Rule.all.flatMap fun r =>
    ("  " ++ r.id ++ " - " ++ r.description ++ "\n")
      :: r.options.map fun (name, fallback) => "      " ++ name ++ " (default: " ++ fallback ++ ")\n")

def openLog (fs : FileSystem) (args : Arguments) (chatty : Bool) (usualLog : String) : Session FileSystem :=
  match args.debugLog with
  | none => return fs
  | some wanted => do
    let path := wanted.getD usualLog
    match fs.create path with
    | .ok opened =>
      modify fun t => { t with log := some path }
      if chatty then printLine ("Debug log: " ++ path)
      return opened
    | .error fault =>
      warn ("Warning: Failed to initialize debug log: " ++ fault.message)
      return fs

/-- A configuration and where it comes from. A failure is told with its cause at the end once more. -/
def loaded {α : Type} (x : Logged (Except LoadError α)) : Session α := do
  match ← logged x with
  | .ok a => return a
  | .error e => fail (e.message ++ ": " ++ e.cause)

def usingConfig (chatty : Bool) (path : String) : Session Unit := do
  if chatty then printLine ("Using config: " ++ path)

def homePath (fs : FileSystem) : String := "/" ++ "/".intercalate fs.home

def loadConfig (fs : FileSystem) (args : Arguments) (chatty : Bool) : Session Config := do
  if args.noConfig then return Config.empty
  match args.config with
  | some path =>
    let c ← loaded (Config.loadPath fs path)
    usingConfig chatty path
    return c
  | none =>
    match ← loaded (Config.loadFrom fs (homePath fs)) with
    | some (c, path) =>
      usingConfig chatty path
      return c
    | none => return Config.empty

def analyzerFor (config : Config) (args : Arguments) : Session Analyzer := do
  let a ← logged (Analyzer.ofConfig config)
  match args.rules.find? fun rule => (Rule.ofName? rule).isNone with
  | some rule => fail ("Unknown rule '" ++ rule ++ "'. Use --list-rules to see available rules.")
  | none =>
    let a := if args.rules.isEmpty then a else a.setRules args.rules
    if args.ignorePregMatch then
      logged (a.setOption (Rule.id .undefinedVariable) "ignorePregMatch" (.boolean true))
    else return a

/-- The paths that exist. Of the others a warning is given. -/
def existing (fs : FileSystem) : List String → Session (List String)
  | [] => return []
  | path :: paths => do
    if fs.pathExists path then return path :: (← existing fs paths)
    else
      warn ("Warning: Path does not exist: " ++ path)
      existing fs paths

/-- Looks for issues and reports them. The exit code says whether there are any. -/
def inspect (fs : FileSystem) (args : Arguments) (format : Format) (usualLog : String) : Session Nat := do
  let chatty := args.verbose && format == .table
  let fs ← openLog fs args chatty usualLog
  let config ← loadConfig fs args chatty
  let a ← analyzerFor config args
  if a.enabled.isEmpty then fail "No rules enabled"
  let ids := a.enabled.map Rule.id
  logged (Logged.notes (Log.configSummary ids args.paths.length config.exclude.length))
  if chatty then print ("Rules: " ++ ", ".intercalate ids ++ "\n\n")
  let issues ← logged (a.analyzePaths fs (← existing fs args.paths))
  print (format.report issues)
  if chatty then
    match (← get).log with
    | some path => printLine ("Debug log written to: " ++ path)
    | none => pure ()
  return if issues.isEmpty then 0 else 1

/-- A run with the given arguments. `usualLog` is the file of a log that is wanted without a name. -/
def run (fs : FileSystem) (args : Arguments) (usualLog : String) : Outcome :=
  Session.outcome do
    if args.listRules then
      print ruleList
      return 0
    let name := args.format.getD "text"
    match Format.ofName? name with
    | none => fail ("Invalid output format '" ++ name ++ "'. Valid options: text, raw, json, github")
    | some format => inspect fs args format usualLog

def versionLine : String := "messdetector " ++ Report.version ++ "\n"

end PhpInspect.CommandLine
