import PhpInspect.Text.Segments

/-! # The log

What a run has to say about itself: a list of messages that grows beside the result.
-/

namespace PhpInspect

/-- A result with the messages that were logged on the way to it, in order. -/
structure Logged (α : Type) where
  value : α
  messages : List String
deriving Repr

namespace Logged

variable {α β : Type}

instance : Monad Logged where
  pure a := ⟨a, []⟩
  bind x f := ⟨(f x.value).value, x.messages ++ (f x.value).messages⟩

def note (message : String) : Logged Unit := ⟨(), [message]⟩

def notes (messages : List String) : Logged Unit := ⟨(), messages⟩

@[simp] theorem value_pure (a : α) : (pure a : Logged α).value = a := rfl

@[simp] theorem messages_pure (a : α) : (pure a : Logged α).messages = [] := rfl

@[simp] theorem value_bind (x : Logged α) (f : α → Logged β) : (x >>= f).value = (f x.value).value := rfl

@[simp] theorem messages_bind (x : Logged α) (f : α → Logged β) :
    (x >>= f).messages = x.messages ++ (f x.value).messages := rfl

end Logged

namespace Log

def rule (mark : Char) (width : Nat) : String := String.ofList (List.replicate width mark)

def titled (title : String) : List String := [rule '=' 60, title, rule '=' 60]

def subtitled (title : String) : List String := [rule '-' 40, title, rule '-' 40]

def configLoad (path : String) : List String :=
  titled "CONFIGURATION LOADING" ++ ["Loading config from: " ++ path]

def optionOverride (rule option value : String) : List String :=
  ["[cli] rules." ++ rule ++ "." ++ option ++ " = " ++ value]

def configSummary (rules : List String) (paths excludes : Nat) : List String :=
  titled "CONFIGURATION SUMMARY" ++
    ["Enabled rules: " ++ ", ".intercalate rules, "Paths to analyze: " ++ toString paths,
      "Exclude patterns: " ++ toString excludes]

def exclusionMark : String := "EXCLUDED: "

def excluded (path : String) : List String := [exclusionMark ++ path]

def analysisStart (files : Nat) : List String :=
  titled "ANALYSIS START" ++ ["Analyzing " ++ toString files ++ " files"]

def parseError (file message : String) : List String := ["PARSE ERROR: " ++ file ++ " - " ++ message]

def fileError (file message : String) : List String := ["READ ERROR: " ++ file ++ " - " ++ message]

def ruleError (file rule unit error : String) : List String :=
  subtitled "RULE ERROR" ++
    ["File: " ++ file, "Rule: " ++ rule, "Unit: " ++ unit, "  Error: " ++ error]

def analysisComplete (violations internalErrors : Nat) : List String :=
  titled "ANALYSIS COMPLETE" ++
    ["Violations found: " ++ toString violations, "Internal errors: " ++ toString internalErrors]

/-! ### The log as a file -/

/-- The lines of a message; a carriage return at the end of a line is dropped. -/
def messageLines (message : String) : List String :=
  (Text.segments '\n' message.toList).map fun line =>
    String.ofList (if line.getLast? == some '\r' then line.dropLast else line)

/-- Sorts every run of adjacent lines that speak of excluded files. `run` is the run being read. -/
def sortExclusions (run : List String) : List String → List String
  | [] => sorted run
  | line :: lines =>
    if line.startsWith exclusionMark then sortExclusions (line :: run) lines
    else sorted run ++ line :: sortExclusions [] lines
where
  sorted (run : List String) : List String := run.mergeSort fun a b => a ≤ b

/-- The lines that messages make in a log file. A directory may be walked in any order, so what a walk leaves out
is listed by name. -/
def lines (messages : List String) : List String := sortExclusions [] (messages.flatMap messageLines)

end Log

end PhpInspect
