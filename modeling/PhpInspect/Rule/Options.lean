import PhpInspect.Log
import PhpInspect.Text.Blank
import PhpInspect.Toml.Printer

/-! # Options of rules

Options are read leniently: a value of the wrong form counts as missing, and the log says so each time it is read.
-/

namespace PhpInspect

/-- The options of one rule, named as its user names it. -/
structure Options where
  rule : String
  table : Toml.Table
deriving Repr

namespace Options

def empty (rule : String) : Options := ⟨rule, []⟩

def set (o : Options) (name : String) (value : Toml.Value) : Options :=
  { o with table := o.table.insert name value }

def contains (o : Options) (name : String) : Bool := o.table.contains name

def invalid (o : Options) (name : String) (value : Toml.Value) (fallback : String) : String :=
  "WARNING: [rules." ++ o.rule ++ "] " ++ name ++ " = " ++ value.text ++ " is invalid, using default "
    ++ fallback

/-- The truth that a word stands for, white space around it and the case of its letters apart. -/
def truthOfWord? (word : String) : Option Bool :=
  let word := (Text.trim word).toLower
  if ["true", "1", "yes", "on"].contains word then some true
  else if ["false", "0", "no", "off"].contains word then some false
  else none

def truth? : Toml.Value → Option Bool
  | .boolean b => some b
  | .integer n => if n = 0 then some false else if n = 1 then some true else none
  | .string s => truthOfWord? s
  | _ => none

def boolText (b : Bool) : String := if b then "true" else "false"

def bool (o : Options) (name : String) (fallback : Bool) : Logged Bool :=
  match o.table.get? name with
  | none => pure fallback
  | some value =>
    match truth? value with
    | some b => pure b
    | none => do
      Logged.note (o.invalid name value (boolText fallback))
      return fallback

def string (o : Options) (name fallback : String) : Logged String :=
  match o.table.get? name with
  | none => pure fallback
  | some (.string s) => pure s
  | some value => do
    Logged.note (o.invalid name value fallback)
    return fallback

end Options

end PhpInspect
