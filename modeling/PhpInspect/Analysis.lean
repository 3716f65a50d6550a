import PhpInspect.Config.Exclusion
import PhpInspect.FileSystem
import PhpInspect.Issue.Order
import PhpInspect.Php.Lowering
import PhpInspect.Php.Parse.Program
import PhpInspect.Rule.Apply

/-! # Analyses

Running the rules over source texts and files. What goes wrong on the way becomes an issue too, and the rest of the
run goes on.
-/

namespace PhpInspect

namespace Logged

variable {α β : Type}

/-- What is found for every item, together. -/
def collect (f : α → Logged (List β)) : List α → Logged (List β)
  | [] => pure []
  | a :: as => do
    let found ← f a
    let others ← collect f as
    return found ++ others

@[simp] theorem value_collect (f : α → Logged (List β)) (as : List α) :
    (collect f as).value = as.flatMap fun a => (f a).value := by
  induction as with
  | nil => rfl
  | cons a as ih => simp [collect, ih]

end Logged

structure Analyzer where
  config : Config
  enabled : List Rule
  options : Rule → Options

namespace Analyzer

def rulesNamed (config : Config) (named : List String) : List Rule :=
  (config.effectiveRules Rule.ids named).filterMap Rule.ofName?

def ofConfig (config : Config) : Logged Analyzer := do
  let undefinedOptions ← config.optionsFor (Rule.id .undefinedVariable)
  let unreachableOptions ← config.optionsFor (Rule.id .unreachableCode)
  return {
    config
    enabled := rulesNamed config []
    options := fun
      | .undefinedVariable => undefinedOptions
      | .unreachableCode => unreachableOptions }

def setRules (a : Analyzer) (named : List String) : Analyzer :=
  { a with enabled := rulesNamed a.config named }

def setOption (a : Analyzer) (rule name : String) (value : Toml.Value) : Logged Analyzer :=
  match Rule.ofName? rule with
  -- A name that is no rule's is passed over.
  | none => pure a
  | some r => do
    Logged.notes (Log.optionOverride r.id name value.text)
    return { a with options := fun q => if q = r then (a.options q).set name value else a.options q }

/-! ### Source texts -/

def violationIssue (file : String) (v : Violation) : Issue :=
  (Issue.onLine v.rule.severity v.rule.id (v.rule.message v.token) file v.line).withEndLine v.endLine

def checkUnit (a : Analyzer) (file : String) (t : Tree) (unit : Nat) (r : Rule) : Logged (List Issue) := do
  match ← r.apply t unit (a.options r) with
  | .ok violations => return violations.map (violationIssue file)
  | .error e =>
    Logged.notes (Log.ruleError file r.id (t.image unit) e.message)
    return [Issue.onLine .error Issue.internalError
      (r.id ++ " failed on " ++ t.image unit ++ ": " ++ e.message) file e.line]

/-- The issues of a tree, function by function and rule by rule. -/
def checkTree (a : Analyzer) (file : String) (t : Tree) : Logged (List Issue) :=
  Logged.collect (fun unit => Logged.collect (a.checkUnit file t unit) a.enabled) t.units

def parseMessage (file : String) (e : Php.ParseError) : String :=
  "Parse error in " ++ file ++ ": " ++ e.message

/-- The issues of a file that was read up to its end or up to an error. -/
def analyzeProgram (a : Analyzer) (file : String) (source : Source) (program : Php.Program) : Logged (List Issue) := do
  let tree := Php.treeOf source program.statements
  match program.error with
  | none => a.checkTree file tree
  | some e =>
    Logged.notes (Log.parseError file (parseMessage file e))
    let found ← a.checkTree file tree
    return Issue.onLine .error Issue.parseError (parseMessage file e) file 1 :: found

def analyzeText (a : Analyzer) (file text : String) : Logged (List Issue) :=
  a.analyzeProgram file (Source.ofText text) (Php.Program.ofText text)

/-! ### Files -/

def readMessage (file : String) (fault : FileFault) : String :=
  "Failed to read " ++ file ++ ": " ++ fault.message

def analyzeFile (a : Analyzer) (fs : FileSystem) (file : String) : Except FileFault (Logged (List Issue)) := do
  return a.analyzeText file (← fs.readText file)

/-- The files of one argument: the file that it names, or the PHP files below the directory that it names. -/
def filesOf (a : Analyzer) (fs : FileSystem) (path : String) : Logged (List String) :=
  if fs.isFile path then pure [path]
  else
    Logged.collect (fun file => do
      if !fs.isFile file || Path.extension? file != some "php" then return []
      else if a.config.excludes file then
        Logged.notes (Log.excluded file)
        return []
      else return [file]) (fs.filesBelow path)

def collectFiles (a : Analyzer) (fs : FileSystem) (paths : List String) : Logged (List String) := do
  let files ← Logged.collect (a.filesOf fs) paths
  return files.mergeSort fun p q => (Path.compare p q).isLE

def issuesOf (file : String) : Except FileFault (Logged (List Issue)) → List Issue
  | .ok found => found.value
  | .error fault => [Issue.onLine .error Issue.fileError (readMessage file fault) file 1]

def messagesOf : Except FileFault (Logged (List Issue)) → List String
  | .ok found => found.messages
  | .error _ => []

/-- What is logged, when all files are done, of a file that could not be read. -/
def faultMessages (file : String) : Except FileFault (Logged (List Issue)) → List String
  | .ok _ => []
  | .error fault => Log.fileError file (readMessage file fault)

def analyzePaths (a : Analyzer) (fs : FileSystem) (paths : List String) : Logged (List Issue) := do
  let files ← a.collectFiles fs paths
  Logged.notes (Log.analysisStart files.length)
  let results := files.map fun file => (file, a.analyzeFile fs file)
  Logged.notes (results.flatMap fun r => messagesOf r.2)
  Logged.notes (results.flatMap fun r => faultMessages r.1 r.2)
  let issues := Issue.sorted (results.flatMap fun r => issuesOf r.1 r.2)
  Logged.notes (Log.analysisComplete (issues.countP (·.isViolation))
    (Issue.byRule issues Issue.internalError).length)
  return issues

end Analyzer

end PhpInspect
