import PhpInspect.Rule.Options
import PhpInspect.Text.LowerCase
import PhpInspect.Text.Quoted
import PhpInspect.Toml.Document

/-! # Configurations

Which rules run, with which options, and which files are left out.
-/

namespace PhpInspect

structure Config where
  /-- Only these rules run, if they are given. -/
  enabled : Option (List String)
  /-- These rules do not run. -/
  disabled : List String
  /-- Everything else that is said of rules, in the order of the names. -/
  options : Toml.Table
  /-- Patterns of files to leave out. -/
  exclude : List String
deriving Repr

inductive ConfigError where
  | notToml
  | wrongType (found : Toml.Value) (expected : String)

namespace ConfigError

/-- A value as error messages speak of it. -/
def describe : Toml.Value → String
  | .string s => "string " ++ Text.quoted s
  | .integer n => "integer `" ++ toString n ++ "`"
  | .float f => "floating point `" ++ f.text "NaN" ++ "`"
  | .boolean b => "boolean `" ++ (if b then "true" else "false") ++ "`"
  | .array _ => "sequence"
  | .dateTime _ | .table _ => "map"

/-- What is wrong, apart from where it stands. -/
def message : ConfigError → String
  | .notToml => "invalid TOML"
  | .wrongType found expected => "invalid type: " ++ describe found ++ ", expected " ++ expected

end ConfigError

namespace Config

def empty : Config := { enabled := none, disabled := [], options := [], exclude := [] }

/-! ### Reading -/

def stringOf : Toml.Value → Except ConfigError String
  | .string s => .ok s
  | v => .error (.wrongType v "a string")

def stringsOf : Toml.Value → Except ConfigError (List String)
  | .array items => items.mapM stringOf
  | v => .error (.wrongType v "a sequence")

def addRule (c : Config) (entry : String × Toml.Value) : Except ConfigError Config :=
  match entry.1 with
  | "enabled" => do return { c with enabled := some (← stringsOf entry.2) }
  | "disabled" => do return { c with disabled := ← stringsOf entry.2 }
  | _ => .ok { c with options := c.options ++ [entry] }

/-- The table of rules. A date counts as the table that stands for it. -/
def addRules (c : Config) : Toml.Value → Except ConfigError Config
  | .table entries => do
    let c ← entries.foldlM addRule c
    return { c with options := c.options.sorted }
  | .dateTime s => c.addRule (Toml.dateKey, .string s)
  | v => .error (.wrongType v "struct RulesConfig")

def addPath (c : Config) (entry : String × Toml.Value) : Except ConfigError Config :=
  match entry.1 with
  | "exclude" => do return { c with exclude := ← stringsOf entry.2 }
  | _ => .ok c

/-- The table of paths, or a list that holds its only field. -/
def addPaths (c : Config) : Toml.Value → Except ConfigError Config
  | .table entries => entries.foldlM addPath c
  | .array [] => .ok c
  | .array (exclude :: _) => do return { c with exclude := ← stringsOf exclude }
  | .dateTime _ => .ok c
  | v => .error (.wrongType v "struct PathsConfig")

def addEntry (c : Config) (entry : String × Toml.Value) : Except ConfigError Config :=
  match entry.1 with
  | "rules" => c.addRules entry.2
  | "paths" => c.addPaths entry.2
  | _ => .ok c

/-- The configuration that a text describes. The first fault of the text counts. -/
def ofText (text : String) : Except ConfigError Config :=
  match Toml.parse? text with
  | none => .error .notToml
  | some entries => entries.foldlM addEntry empty

/-! ### Rules -/

def hasName (names : List String) (name : String) : Bool :=
  (names.map Text.toLower).contains (Text.toLower name)

/-- Which of all rules run. Rules that are asked for by name run, and no others, whatever the configuration says. -/
def effectiveRules (c : Config) (all named : List String) : List String :=
  if named.isEmpty then
    all.filter fun rule => (c.enabled.all fun names => hasName names rule) && !hasName c.disabled rule
  else all.filter (hasName named)

/-- The options of a rule. The first entry counts whose name differs from that of the rule at most in the case of
ASCII letters. -/
def optionsFor (c : Config) (rule : String) : Logged Options :=
  match c.options.find? fun entry => entry.1.toLower == rule.toLower with
  | some (_, .table entries) => pure ⟨rule, entries⟩
  | some (_, other) => do
    Logged.note ("WARNING: [rules] " ++ rule ++ " = " ++ other.text ++ " is not a table, ignoring")
    return Options.empty rule
  | none => pure (Options.empty rule)

end Config

end PhpInspect
