import PhpInspect.Toml.Value

/-! # The text of TOML values

A string is written in the first form that shows it without escapes. Tables are written inline, their keys in
order.
-/

namespace PhpInspect.Toml

def isControl (c : Char) : Bool := (c.toNat < 0x20 || c.toNat == 0x7f) && c != '\n' && c != '\t'

def hasTriple (quote : Char) : List Char → Bool
  | a :: b :: c :: cs => (a == quote && b == quote && c == quote) || hasTriple quote (b :: c :: cs)
  | _ => false

def upperHex (n : Nat) : Char := (Nat.digitChar (n % 16)).toUpper

/-- The escape of a character other than a quote or a line feed, or the character itself. -/
def escaped (c : Char) : List Char :=
  match c with
  | '\x08' => ['\\', 'b']
  | '\t' => ['\\', 't']
  | '\x0c' => ['\\', 'f']
  | '\r' => ['\\', 'r']
  | '\\' => ['\\', '\\']
  | c =>
    if isControl c then ['\\', 'u', '0', '0', upperHex (c.toNat / 16), upperHex c.toNat] else [c]

def oneLine (cs : List Char) : List Char :=
  cs.flatMap fun c =>
    match c with
    | '"' => ['\\', '"']
    | '\n' => ['\\', 'n']
    | c => escaped c

/-- Text over several lines, every third quote of a row escaped; `run` counts the quotes just passed. -/
def severalLines (run : Nat) : List Char → List Char
  | [] => []
  | '"' :: cs => if run == 2 then '\\' :: '"' :: severalLines 0 cs else '"' :: severalLines (run + 1) cs
  | '\n' :: cs => '\n' :: severalLines 0 cs
  | c :: cs => escaped c ++ severalLines 0 cs

/-- Text between delimiters; a line feed is put first if the text holds one and the form spans lines. -/
def delimited (mark : String) (text : List Char) : String :=
  mark ++ (if mark.length == 3 && text.contains '\n' then "\n" else "") ++ String.ofList text ++ mark

def stringText (s : String) : String :=
  let cs := s.toList
  let plain := !cs.any isControl
  let single := !cs.contains '\n'
  if plain && single && !cs.contains '\\' && !cs.contains '"' then delimited "\"" (cs.flatMap escaped)
  else if plain && single && !cs.contains '\'' then delimited "'" cs
  else if plain && !cs.contains '\\' && !hasTriple '"' cs then delimited "\"\"\"" (severalLines 0 cs)
  else if plain && !hasTriple '\'' cs then delimited "'''" cs
  else if !single then delimited "\"\"\"" (severalLines 0 cs)
  else delimited "\"" (oneLine cs)

def isBareKeyChar (c : Char) : Bool := c.isAlphanum || c == '_' || c == '-'

def keyText (s : String) : String :=
  let cs := s.toList
  let plain := !cs.any isControl && !cs.contains '\n'
  if !cs.isEmpty && cs.all isBareKeyChar then s
  else if plain && !cs.contains '\\' && !cs.contains '"' then delimited "\"" (cs.flatMap escaped)
  else if plain && !cs.contains '\'' then delimited "'" cs
  else delimited "\"" (oneLine cs)

def entriesText (entries : List (String × String)) : String :=
  match entries.mergeSort fun a b => a.1 ≤ b.1 with
  | [] => "\x7b\x7d"
  | sorted => "\x7b " ++ ", ".intercalate (sorted.map fun e => keyText e.1 ++ " = " ++ e.2) ++ " \x7d"

namespace Value

mutual

def inner : Value → String
  | .string s => stringText s
  | .integer n => toString n
  | .float f => f.text "nan"
  | .boolean b => if b then "true" else "false"
  | .dateTime s => s
  | .array items => "[" ++ ", ".intercalate (innerItems items) ++ "]"
  | .table entries => entriesText (innerEntries entries)

def innerItems : List Value → List String
  | [] => []
  | v :: vs => v.inner :: innerItems vs

def innerEntries : List (String × Value) → List (String × String)
  | [] => []
  | (k, v) :: rest => (k, v.inner) :: innerEntries rest

end

/-- The text of a value that stands alone. A date that stands alone is written as a table. -/
def text : Value → String
  | .dateTime s => entriesText [(dateKey, stringText s)]
  | v => v.inner

end Value

end PhpInspect.Toml
