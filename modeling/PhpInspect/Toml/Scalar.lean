import PhpInspect.Toml.Value

/-! # Reading keys, strings, numbers and dates

Each reader takes characters from the front of a list and fails if they do not have its form.
-/

namespace PhpInspect.Toml

abbrev Read := StateT (List Char) Option

namespace Read

variable {α : Type}

def rest : Read (List Char) := get

def peek : Read (Option Char) := do return (← get).head?

def next : Read Char := fun
  | [] => none
  | c :: cs => some (c, cs)

def exactly (text : String) : Read Unit := fun cs =>
  if text.toList.isPrefixOf cs then some ((), cs.drop text.length) else none

def skip? (text : String) : Read Bool := fun cs =>
  if text.toList.isPrefixOf cs then some (true, cs.drop text.length) else some (false, cs)

def span (p : Char → Bool) : Read (List Char) := fun cs => some (cs.takeWhile p, cs.dropWhile p)

def orElse (first second : Read α) : Read α := fun cs => (first cs).or (second cs)

def optional (reader : Read α) : Read (Option α) := fun cs =>
  match reader cs with
  | some (a, left) => some (some a, left)
  | none => some (none, cs)

def ensure (condition : Bool) : Read Unit := fun cs => if condition then some ((), cs) else none

/-- Repeats `item` while it gives a value, at most once for every character and once more. -/
def collect (item : Read (Option α)) : Read (List α) := do go ((← get).length + 1) []
where
  go : Nat → List α → Read (List α)
  | 0, read => return read.reverse
  | bound + 1, read => do
    match ← item with
    | some x => go bound (x :: read)
    | none => return read.reverse

end Read

/-! ### Strings -/

/-- Characters of strings that stand for themselves: no controls but the tab. -/
def isStringChar (c : Char) : Bool := c == '\t' || (0x20 ≤ c.toNat && c.toNat != 0x7f)

def hexValue? (c : Char) : Option Nat :=
  if c.isDigit then some (c.toNat - '0'.toNat)
  else if 'a' ≤ c && c ≤ 'f' then some (c.toNat - 'a'.toNat + 10)
  else if 'A' ≤ c && c ≤ 'F' then some (c.toNat - 'A'.toNat + 10)
  else none

def hexNumber? (cs : List Char) : Option Nat :=
  cs.foldl (fun n c => do return (← n) * 16 + (← hexValue? c)) (some 0)

def codePoint? (digits : List Char) : Option Char := do
  let n ← hexNumber? digits
  if n.isValidChar then some (Char.ofNat n) else none

def shortEscape? : Char → Option Char
  | 'b' => some '\x08'
  | 't' => some '\t'
  | 'n' => some '\n'
  | 'f' => some '\x0c'
  | 'r' => some '\r'
  | '"' => some '"'
  | '\\' => some '\\'
  | _ => none

/-- What follows a backslash: a character and the rest. -/
def escape? : List Char → Option (Char × List Char)
  | 'u' :: cs => do
    let c ← codePoint? (cs.take 4)
    if (cs.take 4).length == 4 then some (c, cs.drop 4) else none
  | 'U' :: cs => do
    let c ← codePoint? (cs.take 8)
    if (cs.take 8).length == 8 then some (c, cs.drop 8) else none
  | c :: cs => do return (← shortEscape? c, cs)
  | [] => none

def escapeLength : List Char → Nat
  | 'u' :: _ => 5
  | 'U' :: _ => 9
  | _ => 1

/-- A string in double quotes behind the first; `skipped` characters belong to an escape already read. -/
def basicRest (skipped : Nat) : List Char → Option (List Char × List Char)
  | [] => none
  | c :: cs =>
    match skipped with
    | n + 1 => basicRest n cs
    | 0 =>
      if c == '"' then some ([], cs)
      else if c == '\\' then do
        let (escaped, _) ← escape? cs
        let (text, left) ← basicRest (escapeLength cs) cs
        return (escaped :: text, left)
      else if isStringChar c then do
        let (text, left) ← basicRest 0 cs
        return (c :: text, left)
      else none

def literalRest : List Char → Option (List Char × List Char)
  | [] => none
  | c :: cs =>
    if c == '\'' then some ([], cs)
    else if isStringChar c then do
      let (text, left) ← literalRest cs
      return (c :: text, left)
    else none

def lineEnds (cs : List Char) : Bool :=
  match cs.dropWhile fun c => c == ' ' || c == '\t' with
  | '\n' :: _ => true
  | '\r' :: '\n' :: _ => true
  | _ => false

/-- What a closing delimiter of three quotes keeps: quotes directly before it belong to the text. -/
def closing? (quote : Char) (cs : List Char) : Option (List Char × List Char) :=
  let n := min (cs.takeWhile (· == quote)).length 5
  if 3 ≤ n then some (List.replicate (n - 3) quote, cs.drop n) else none

/-- A string in three double quotes behind them. Behind a backslash at the end of a line, `trimming`, white space
is left out up to the next character. -/
def longBasicRest (trimming : Bool) (skipped : Nat) : List Char → Option (List Char × List Char)
  | [] => none
  | c :: cs =>
    match skipped with
    | n + 1 => longBasicRest trimming n cs
    | 0 =>
      let isBreak := c == '\n' || (c == '\r' && cs.head? == some '\n')
      if trimming && (c == ' ' || c == '\t' || isBreak) then longBasicRest true 0 cs
      else if isBreak then
        if c == '\r' then longBasicRest false 0 cs
        else do
          let (text, left) ← longBasicRest false 0 cs
          return ('\n' :: text, left)
      else
        match closing? '"' (c :: cs) with
        | some closed => some closed
        | none =>
          if c == '\\' then
            if lineEnds cs then longBasicRest true 0 cs
            else do
              let (escaped, _) ← escape? cs
              let (text, left) ← longBasicRest false (escapeLength cs) cs
              return (escaped :: text, left)
          else if isStringChar c then do
            let (text, left) ← longBasicRest false 0 cs
            return (c :: text, left)
          else none

def longLiteralRest : List Char → Option (List Char × List Char)
  | [] => none
  | c :: cs =>
    match closing? '\'' (c :: cs) with
    | some closed => some closed
    | none =>
      if c == '\r' && cs.head? == some '\n' then longLiteralRest cs
      else if c == '\n' || isStringChar c then do
        let (text, left) ← longLiteralRest cs
        return (c :: text, left)
      else none

/-- A line break directly behind the opening quotes does not count. -/
def dropBreak : List Char → List Char
  | '\n' :: cs => cs
  | '\r' :: '\n' :: cs => cs
  | cs => cs

def textWith (reader : List Char → Option (List Char × List Char)) : Read String := fun cs =>
  (reader cs).map fun (text, left) => (String.ofList text, left)

def shortString : Read String := do
  match ← Read.next with
  | '"' => textWith (basicRest 0)
  | '\'' => textWith literalRest
  | _ => failure

def anyString : Read String := do
  if ← Read.skip? "\"\"\"" then textWith fun cs => longBasicRest false 0 (dropBreak cs)
  else if ← Read.skip? "'''" then textWith fun cs => longLiteralRest (dropBreak cs)
  else shortString

/-! ### Keys -/

def isKeyChar (c : Char) : Bool := c.isAlphanum || c == '_' || c == '-'

def blanks : Read Unit := do
  let _ ← Read.span fun c => c == ' ' || c == '\t'

def simpleKey : Read String := do
  match ← Read.peek with
  | some '"' | some '\'' => shortString
  | _ =>
    let cs ← Read.span isKeyChar
    Read.ensure !cs.isEmpty
    return String.ofList cs

/-- Keys with dots between them, fewer than eighty. -/
def dottedKey : Read (List String) := do
  let first ← simpleKey
  let others ← Read.collect do
    match ← Read.optional (do blanks; Read.exactly ".") with
    | none => return none
    | some _ =>
      blanks
      return some (← simpleKey)
  Read.ensure (others.length + 1 < 80)
  return first :: others

/-! ### Numbers -/

/-- Digits with single underscores between them, the underscores left out. -/
def digitsWith (isDigit : Char → Bool) : Read (List Char) := do
  let cs ← Read.span fun c => isDigit c || c == '_'
  let digits := cs.filter (· != '_')
  let groups := (String.ofList cs).splitOn "_"
  Read.ensure (groups.all fun g => !g.isEmpty)
  return digits

def wholeDigits : Read (List Char) := do
  let digits ← digitsWith Char.isDigit
  Read.ensure (digits.length == 1 || digits.head? != some '0')
  return digits

def sign : Read Bool := do
  if ← Read.skip? "-" then return true
  let _ ← Read.skip? "+"
  return false

def decimal (digits : List Char) : Nat :=
  digits.foldl (fun n c => n * 10 + (c.toNat - '0'.toNat)) 0

/-- The value of digits in a base, letters counting from ten. -/
def inBase (base : Nat) (digits : List Char) : Nat :=
  digits.foldl (fun n c => n * base + (hexValue? c).getD 0) 0

def fits (n : Int) : Bool := Int64.minValue.toInt ≤ n && n ≤ Int64.maxValue.toInt

def integer : Read Value := do
  let (base, mark) ←
    if ← Read.skip? "0x" then pure (16, fun c => (hexValue? c).isSome)
    else if ← Read.skip? "0o" then pure (8, fun c : Char => '0' ≤ c && c ≤ '7')
    else if ← Read.skip? "0b" then pure (2, fun c : Char => c == '0' || c == '1')
    else pure (10, Char.isDigit)
  let n : Int ←
    if base == 10 then do
      let negative ← sign
      let digits ← wholeDigits
      pure (if negative then -Int.ofNat (decimal digits) else Int.ofNat (decimal digits))
    else do pure (Int.ofNat (inBase base (← digitsWith mark)))
  Read.ensure (fits n)
  return .integer n

def exponent : Read Int := do
  let mark ← Read.next
  Read.ensure (mark == 'e' || mark == 'E')
  let negative ← sign
  let digits ← digitsWith Char.isDigit
  return if negative then -Int.ofNat (decimal digits) else Int.ofNat (decimal digits)

/-- A number with a point, an exponent or both. A number too large is refused, unless it is negative. -/
def float : Read Value := do
  let negative ← sign
  if ← Read.skip? "inf" then return .float (.infinite negative)
  if ← Read.skip? "nan" then return .float .nan
  let whole ← wholeDigits
  let hasPoint ← Read.skip? "."
  let part ← if hasPoint then digitsWith Char.isDigit else pure []
  let power ← if hasPoint then do pure ((← Read.optional exponent).getD 0) else exponent
  let number := Binary64.ofDecimal negative (decimal (whole ++ part)) (power - part.length)
  Read.ensure (number != .infinite false)
  return .float number

/-! ### Dates and times -/

def fixedDigits (count least greatest : Nat) : Read (List Char) := do
  let cs := (← Read.rest).take count
  Read.ensure (cs.length == count && cs.all Char.isDigit)
  Read.ensure (least ≤ decimal cs && decimal cs ≤ greatest)
  set ((← Read.rest).drop count)
  return cs

def daysIn (year month : Nat) : Nat :=
  match month with
  | 2 => if year % 4 == 0 && (year % 100 != 0 || year % 400 == 0) then 29 else 28
  | 4 | 6 | 9 | 11 => 30
  | _ => 31

def date : Read String := do
  let year ← fixedDigits 4 0 9999
  Read.exactly "-"
  let month ← fixedDigits 2 1 12
  Read.exactly "-"
  let day ← fixedDigits 2 1 (daysIn (decimal year) (decimal month))
  return String.ofList (year ++ '-' :: month ++ '-' :: day)

def trimZeros (digits : List Char) : List Char := (digits.reverse.dropWhile (· == '0')).reverse

/-- A time of day. Nine places of a second count; zeros at their end are not printed. -/
def time : Read String := do
  let hour ← fixedDigits 2 0 23
  Read.exactly ":"
  let minute ← fixedDigits 2 0 59
  Read.exactly ":"
  let second ← fixedDigits 2 0 60
  let places ←
    if ← Read.skip? "." then do
      let digits ← Read.span Char.isDigit
      Read.ensure !digits.isEmpty
      pure (trimZeros (digits.take 9))
    else pure []
  let fraction := if places.isEmpty then [] else '.' :: places
  return String.ofList (hour ++ ':' :: minute ++ ':' :: second ++ fraction)

def offset : Read String := do
  let mark ← Read.next
  if mark == 'Z' || mark == 'z' then return "Z"
  Read.ensure (mark == '+' || mark == '-')
  let hour ← fixedDigits 2 0 23
  Read.exactly ":"
  let minute ← fixedDigits 2 0 59
  let isZero := decimal hour + decimal minute == 0
  return String.ofList ((if isZero then '+' else mark) :: hour ++ ':' :: minute)

def timeOfDate : Read String := do
  let mark ← Read.next
  Read.ensure (mark == 'T' || mark == 't' || mark == ' ')
  let clock ← time
  let distance := (← Read.optional offset).getD ""
  return "T" ++ clock ++ distance

def dateTime : Read Value :=
  Read.orElse
    (do
      let day ← date
      let clock := (← Read.optional timeOfDate).getD ""
      return .dateTime (day ++ clock))
    (do return .dateTime (← time))

def number : Read Value := Read.orElse dateTime (Read.orElse float integer)

end PhpInspect.Toml
