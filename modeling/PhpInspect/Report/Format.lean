import PhpInspect.Report.Json
import PhpInspect.Text.LowerCase

/-! # Reports -/

namespace PhpInspect

namespace Report

/-! ### One line per issue -/

def rawLine (i : Issue) : String := i.file ++ ":" ++ toString i.line ++ ":" ++ i.message ++ "\n"

def raw (issues : List Issue) : String := String.join ((Issue.sortedByPlace issues).map rawLine)

/-! ### Annotations -/

def replaceChar (c : Char) (code : List Char) (cs : List Char) : List Char :=
  cs.flatMap fun d => if d == c then code else [d]

/-- A percent sign and the ends of lines are written by their codes. -/
def messageCodes : List (Char × List Char) := [('%', "%25".toList), ('\r', "%0D".toList), ('\n', "%0A".toList)]

/-- One character after the other is replaced, the percent sign first since every code begins with it. -/
def escapeMessage (message : String) : String :=
  String.ofList (messageCodes.foldl (fun cs p => replaceChar p.1 p.2 cs) message.toList)

def annotate (i : Issue) : String :=
  "::" ++ i.severity.name ++ " file=" ++ i.file ++ ",line=" ++ toString i.line ++ ",endLine="
    ++ toString i.endLine ++ ",title=" ++ i.rule ++ "::" ++ escapeMessage i.message ++ "\n"

def github (issues : List Issue) : String := String.join (issues.map annotate)

/-! ### A table for readers -/

def marker : Severity → String
  | .error => "ERROR"
  | .warning => "WARNING"

def tableEntry (i : Issue) : String :=
  " " ++ marker i.severity ++ " Line " ++ toString i.line ++ ": " ++ i.message ++ "\n       Rule: " ++ i.rule
    ++ "\n"

def tableGroup (group : String × List Issue) : String :=
  "\n -- " ++ group.1 ++ " --\n\n" ++ String.join (group.2.map tableEntry)

def counted (n : Nat) (noun : String) : String := toString n ++ " " ++ noun ++ if n == 1 then "" else "s"

def table (issues : List Issue) : String :=
  if issues.isEmpty then " [OK] No violations\n"
  else
    let warnings := Issue.warningCount issues
    String.join ((Issue.groups issues).map tableGroup)
      ++ "\n [ERROR] Found " ++ counted (Issue.errorCount issues) "error" ++ "\n"
      ++ if warnings == 0 then "" else " [WARNING] Found " ++ counted warnings "warning" ++ "\n"

end Report

inductive Format where
  | raw
  | json
  | table
  | github
deriving Repr, DecidableEq

namespace Format

def ofName? (name : String) : Option Format :=
  match Text.toLower name with
  | "raw" => some .raw
  | "json" => some .json
  | "table" | "text" => some .table
  | "github" => some .github
  | _ => none

def report : Format → List Issue → String
  | .raw => Report.raw
  | .json => Report.json
  | .table => Report.table
  | .github => Report.github

end Format

end PhpInspect
