import PhpInspect.Toml.Scalar

/-! # Reading TOML documents

A table may be opened once by a header and once for every header below it. A table that dotted keys made takes
only further dotted keys from the table that made it.
-/

namespace PhpInspect.Toml

/-- How a table came to be. -/
inductive Origin where
  /-- By a header below it. -/
  | implied
  | dotted
  /-- By a header of its own. -/
  | opened
deriving Repr, DecidableEq

inductive Item where
  | value (v : Value)
  | table (origin : Origin) (entries : List (String × Item))
  /-- Tables under one name, the last of which may still grow. -/
  | tables (finished : List Value) (last : List (String × Item))
deriving Inhabited

abbrev Entries := List (String × Item)

namespace Item

mutual

def toValue : Item → Value
  | .value v => v
  | .table _ entries => .table (entriesValue entries)
  | .tables finished last => .array (finished ++ [.table (entriesValue last)])

def entriesValue : List (String × Item) → List (String × Value)
  | [] => []
  | (k, item) :: rest => (k, item.toValue) :: entriesValue rest

end

end Item

namespace Entries

def put (es : Entries) (key : String) (item : Item) : Entries :=
  if (es.lookup key).isSome then es.map fun e => if e.1 == key then (key, item) else e
  else es ++ [(key, item)]

/-- Changes the entries at the end of a path of headers, making the tables that are not there. -/
def below : List String → (Entries → Option Entries) → Entries → Option Entries
  | [], change, es => change es
  | key :: path, change, es =>
    match es.lookup key with
    | none => do return put es key (.table .implied (← below path change []))
    | some (.table origin inner) => do return put es key (.table origin (← below path change inner))
    | some (.tables finished last) => do return put es key (.tables finished (← below path change last))
    | some (.value _) => none

/-- Opens a table by its header. A table that was implied moves to the end. -/
def openTable (key : String) (es : Entries) : Option Entries :=
  match es.lookup key with
  | none => some (es ++ [(key, .table .opened [])])
  | some (.table .implied inner) => some (es.filter (·.1 != key) ++ [(key, .table .opened inner)])
  | some _ => none

def openNext (key : String) (es : Entries) : Option Entries :=
  match es.lookup key with
  | none => some (es ++ [(key, .tables [] [])])
  | some (.tables finished last) =>
    some (put es key (.tables (finished ++ [.table (Item.entriesValue last)]) []))
  | some _ => none

def addKey (key : String) (v : Value) (es : Entries) : Option Entries :=
  if (es.lookup key).isSome then none else some (es ++ [(key, .value v)])

def addDotted (v : Value) : List String → Entries → Option Entries
  | [], _ => none
  | [key], es => addKey key v es
  | key :: path, es =>
    match es.lookup key with
    | none => do return put es key (.table .dotted (← addDotted v path []))
    | some (.table .dotted inner) => do return put es key (.table .dotted (← addDotted v path inner))
    | some (.table .implied inner) =>
      if path.length == 1 then none
      else do return put es key (.table .implied (← addDotted v path inner))
    | some (.tables finished last) =>
      if path.length == 1 then none
      else do return put es key (.tables finished (← addDotted v path last))
    | some _ => none

end Entries

/-! ### Values -/

def isCommentChar (c : Char) : Bool := c == '\t' || 0x20 ≤ c.toNat

def comment : Read Unit := do
  if ← Read.skip? "#" then
    let _ ← Read.span isCommentChar

def lineBreak : Read Bool := do
  if ← Read.skip? "\n" then return true else Read.skip? "\r\n"

def gap : Read Unit := do
  let _ ← Read.collect do
    let before := (← Read.rest).length
    blanks
    comment
    let _ ← lineBreak
    return if (← Read.rest).length < before then some () else none

def pairWith (value : Read Value) : Read (List String × Value) := do
  let key ← dottedKey
  blanks
  Read.exactly "="
  blanks
  return (key, ← value)

/-- The values of an array behind its bracket; a comma may follow the last. -/
def arrayRest (value : Read Value) : Read (List Value) := do
  let items ← go ((← Read.rest).length + 1) []
  return items
where
  go : Nat → List Value → Read (List Value)
  | 0, _ => failure
  | bound + 1, read => do
    gap
    if ← Read.skip? "]" then return read.reverse
    let v ← value
    gap
    if ← Read.skip? "," then go bound (v :: read)
    else
      Read.exactly "]"
      return (v :: read).reverse

/-- The pairs of an inline table behind its brace, on one line and without a comma after the last. -/
def inlineRest (value : Read Value) : Read (List (List String × Value)) := do
  blanks
  if ← Read.skip? "\x7d" then return []
  go ((← Read.rest).length + 1) []
where
  go : Nat → List (List String × Value) → Read (List (List String × Value))
  | 0, _ => failure
  | bound + 1, read => do
    blanks
    let pair ← pairWith value
    blanks
    if ← Read.skip? "," then go bound (pair :: read)
    else
      Read.exactly "\x7d"
      return (pair :: read).reverse

def inlineTable (pairs : List (List String × Value)) : Option Value := do
  let es ← pairs.foldlM (fun es pair => Entries.addDotted pair.2 pair.1 es) ([] : Entries)
  return .table (Item.entriesValue es)

/-- A value, given the reader of the values inside of it if it may hold any. -/
def valueWith (nested : Option (Read Value)) : Read Value := do
  match ← Read.peek, nested with
  | some '"', _ | some '\'', _ => return .string (← anyString)
  | some 't', _ =>
    Read.exactly "true"
    return .boolean true
  | some 'f', _ =>
    Read.exactly "false"
    return .boolean false
  | some '[', none | some '\x7b', none => failure
  | some '[', some value =>
    let _ ← Read.next
    return .array (← arrayRest value)
  | some '\x7b', some value =>
    let _ ← Read.next
    match inlineTable (← inlineRest value) with
    | some v => return v
    | none => failure
  | _, _ => number

def valueWithin : Nat → Read Value
  | 0 => valueWith none
  | depth + 1 => valueWith (some (valueWithin depth))

/-! ### Documents -/

structure Draft where
  entries : Entries
  header : List String

namespace Draft

def openHeader (d : Draft) (isNext : Bool) (header : List String) : Option Draft := do
  let key ← header.getLast?
  let change := if isNext then Entries.openNext key else Entries.openTable key
  return { entries := ← Entries.below header.dropLast change d.entries, header }

def add (d : Draft) (pair : List String × Value) : Option Draft := do
  return { d with entries := ← Entries.below d.header (Entries.addDotted pair.2 pair.1) d.entries }

end Draft

/-- A header, and whether it adds to the tables under its name. -/
def header : Read (Bool × List String) := do
  let isNext ← Read.skip? "[["
  unless isNext do Read.exactly "["
  blanks
  let key ← dottedKey
  blanks
  Read.exactly (if isNext then "]]" else "]")
  return (isNext, key)

def lift (draft : Option Draft) : Read Draft := fun cs => draft.map (·, cs)

def line (d : Draft) : Read Draft := do
  blanks
  let d ←
    match ← Read.peek with
    | some '[' => do
      let (isNext, key) ← header
      lift (d.openHeader isNext key)
    | some '#' | some '\n' | some '\r' | none => pure d
    | _ => do lift (d.add (← pairWith (valueWithin 79)))
  blanks
  comment
  unless (← Read.rest).isEmpty do
    let broken ← lineBreak
    Read.ensure broken
  return d

def lines : Nat → Draft → Read Draft
  | 0, d => return d
  | bound + 1, d => do
    if (← Read.rest).isEmpty then return d
    lines bound (← line d)

/-! ### Dates written as tables -/

/-- The date or time that a text is, if it is one and nothing else. -/
def dateOfText? (text : String) : Option Value :=
  match dateTime text.toList with
  | some (value, []) => some value
  | _ => none

def ofEntry (key : String) (value : Value) : Value :=
  match value with
  | .string text => if key == dateKey then (dateOfText? text).getD (.table [(key, value)]) else .table [(key, value)]
  | _ => .table [(key, value)]

mutual

/-- A value in which the tables that stand for dates and times are these. -/
def withDates : Value → Value
  | .array items => .array (itemsWithDates items)
  | .table [(key, value)] => ofEntry key (withDates value)
  | .table entries => .table (entriesWithDates entries)
  | value => value

def itemsWithDates : List Value → List Value
  | [] => []
  | v :: vs => withDates v :: itemsWithDates vs

def entriesWithDates : List (String × Value) → List (String × Value)
  | [] => []
  | (key, v) :: rest => (key, withDates v) :: entriesWithDates rest

end

/-! ### Documents -/

/-- The table that a text describes, if it is a document. A byte order mark at its front is left out. -/
def parse? (text : String) : Option Table :=
  let cs := match text.toList with
    | '\ufeff' :: cs => cs
    | cs => cs
  match lines (cs.length + 1) ⟨[], []⟩ cs with
  | some (d, []) => some (entriesWithDates (Item.entriesValue d.entries))
  | _ => none

end PhpInspect.Toml
