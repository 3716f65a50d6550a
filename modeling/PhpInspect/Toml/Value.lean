import PhpInspect.Number.Shortest

/-! # TOML values -/

namespace PhpInspect.Toml

inductive Value where
  | string (text : String)
  | integer (number : Int)
  | float (number : Binary64)
  | boolean (truth : Bool)
  /-- A date, a time or both, in the form in which it is printed. -/
  | dateTime (text : String)
  | array (items : List Value)
  /-- Entries with different keys, in the order in which they were read. -/
  | table (entries : List (String × Value))
deriving Repr, Inhabited

abbrev Table := List (String × Value)

/-- The key of a table that stands for the date or time in its only entry. -/
def dateKey : String := "$__toml_private_datetime"

namespace Table

def get? (t : Table) (key : String) : Option Value := t.lookup key

def contains (t : Table) (key : String) : Bool := (t.get? key).isSome

/-- Sets a key, in its place if it is there. -/
def insert (t : Table) (key : String) (value : Value) : Table :=
  if t.contains key then t.map fun entry => if entry.1 == key then (key, value) else entry
  else t ++ [(key, value)]

def sorted (t : Table) : Table := t.mergeSort fun a b => a.1 ≤ b.1

end Table

end PhpInspect.Toml
