/-! # Issues -/

namespace PhpInspect

inductive Severity where
  | error
  | warning
deriving Repr, DecidableEq, Inhabited

namespace Severity

def name : Severity → String
  | .error => "error"
  | .warning => "warning"

end Severity

structure Issue where
  /-- The rule that was broken. Names with a dot are not rules but say what went wrong with the file. -/
  rule : String
  severity : Severity
  message : String
  file : String
  line : Nat
  endLine : Nat
deriving Repr, DecidableEq, Inhabited

namespace Issue

def onLine (severity : Severity) (rule message file : String) (line : Nat) : Issue :=
  { rule, severity, message, file, line, endLine := line }

/-- An issue never ends before it begins. -/
def withEndLine (issue : Issue) (endLine : Nat) : Issue := { issue with endLine := max endLine issue.line }

/-- Whether a rule was broken. -/
def isViolation (issue : Issue) : Bool := !issue.rule.toList.contains '.'

def parseError : String := "parse.error"

def internalError : String := "internal.error"

def fileError : String := "io.error"

def errorCount (issues : List Issue) : Nat := issues.countP fun i => i.severity == .error

def warningCount (issues : List Issue) : Nat := issues.countP fun i => i.severity == .warning

def byRule (issues : List Issue) (rule : String) : List Issue := issues.filter fun i => i.rule == rule

end Issue

end PhpInspect
