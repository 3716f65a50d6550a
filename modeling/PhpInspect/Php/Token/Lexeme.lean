import PhpInspect.Php.Token

/-! # Lexemes of PHP code

How many characters the next token of PHP code takes, and of which kind it is. Lengths count characters.
Every function reads a list of characters and answers for its beginning.
-/

namespace PhpInspect.Php

namespace Lexeme

/-- Letters, the underscore and everything outside ASCII begin a name. -/
def isNameStart (c : Char) : Bool := c.isAlpha || c == '_' || 0x80 ≤ c.toNat

def isNamePart (c : Char) : Bool := isNameStart c || c.isDigit

/-- The label of a document, the first variable of a string and a property of a variable in a string begin with a
letter of ASCII. -/
def isLabelStart (c : Char) : Bool := c.isAlpha || c == '_'

def isSpace (c : Char) : Bool := c == ' ' || c == '\t' || c == '\n' || c == '\r' || c.toNat == 12

def startsWith (s : String) (cs : List Char) : Bool := s.toList.isPrefixOf cs

/-- The beginning of `cs` is `s` in any case; `s` is in lower case. -/
def startsWithNoCase (s : String) (cs : List Char) : Bool :=
  s.toList.isPrefixOf ((cs.take s.length).map Char.toLower)

def runLength (p : Char → Bool) (cs : List Char) : Nat := (cs.takeWhile p).length

/-! ### Comments -/

/-- A comment to the end of the line, which a closing tag ends too. -/
def lineComment : List Char → Nat
  | [] => 0
  | '\n' :: _ => 0
  | '\r' :: _ => 0
  | '?' :: '>' :: _ => 0
  | _ :: cs => lineComment cs + 1

def blockComment : List Char → Option Nat
  | [] => none
  | '*' :: '/' :: _ => some 2
  | _ :: cs => (blockComment cs).map (· + 1)

/-! ### Names -/

/-- A name with its namespaces: its length and whether it has several parts. -/
def nameParts : List Char → Nat × Bool
  | [] => (0, false)
  | '\\' :: c :: cs => if isNameStart c then ((nameParts cs).1 + 2, true) else (0, false)
  | c :: cs => if isNamePart c then let (n, qualified) := nameParts cs; (n + 1, qualified) else (0, false)

/-- The rest of a name that begins with a backslash. Two backslashes in a row belong to it and end it. -/
def absoluteRest : List Char → Nat
  | [] => 0
  | '\\' :: '\\' :: _ => 2
  | '\\' :: c :: cs => if isNameStart c then absoluteRest cs + 2 else 0
  | c :: cs => if isNamePart c then absoluteRest cs + 1 else 0

def goesOnWithPart : List Char → Bool
  | '\\' :: c :: _ => isNameStart c
  | _ => false

/-- A keyword, a name or, outside of strings, a name in a namespace. A keyword that a namespace begins with is a
name. -/
def word (inString : Bool) (cs : List Char) : TokenKind × Nat :=
  match TokenKind.setModifiers.find? fun (s, _) => startsWithNoCase s cs with
  | some (s, kind) => (kind, s.length)
  | none =>
    let n := runLength isNamePart cs
    if goesOnWithPart (cs.drop n) then
      match if inString then (n, false) else nameParts cs with
      | (n, true) => (.qualifiedIdentifier, n)
      | (n, false) => (.identifier, n)
    else
      let lower := String.ofList ((cs.take n).map Char.toLower)
      match TokenKind.keywords.find? (·.1 == lower) with
      | some (_, kind) => (kind, n)
      | none => (.identifier, n)

/-! ### Numbers -/

def isBinaryDigit (c : Char) : Bool := c == '0' || c == '1'

def isOctalDigit (c : Char) : Bool := '0' ≤ c && c ≤ '7'

def isHexDigit (c : Char) : Bool := c.isDigit || ('a' ≤ c && c ≤ 'f') || ('A' ≤ c && c ≤ 'F')

def digits (isDigit : Char → Bool) : List Char → Nat
  | [] => 0
  | [c] => if isDigit c then 1 else 0
  | c :: d :: cs =>
    if isDigit c then 1 + digits isDigit (d :: cs)
    else if c == '_' && isDigit d then 2 + digits isDigit cs
    else 0

/-- An exponent such as `e-7`, zero when there is none. Only behind a fraction may it begin with an underscore. -/
def exponent (behindFraction : Bool) : List Char → Nat
  | e :: cs =>
    if e == 'e' || e == 'E' then
      let sign := match cs with
        | '+' :: _ => 1
        | '-' :: _ => 1
        | _ => 0
      let n := digits Char.isDigit (cs.drop sign)
      if n != 0 && (behindFraction || (cs.drop sign).head?.any Char.isDigit) then 1 + sign + n else 0
    else 0
  | [] => 0

def decimal (cs : List Char) : TokenKind × Nat :=
  let whole := digits Char.isDigit cs
  let fraction := match cs.drop whole with
    | '.' :: rest => 1 + digits Char.isDigit rest
    | _ => 0
  let power := exponent (fraction != 0) (cs.drop (whole + fraction))
  (if fraction + power == 0 then .literalInteger else .literalFloat, whole + fraction + power)

/-- A number, in another base if a digit of that base follows the mark of the base. -/
def number (cs : List Char) : TokenKind × Nat :=
  match cs with
  | '0' :: mark :: d :: _ =>
    let based? : Option (Char → Bool) := match mark.toLower with
      | 'x' => some isHexDigit
      | 'o' => some isOctalDigit
      | 'b' => some isBinaryDigit
      | _ => none
    match based? with
    | some isDigit => if isDigit d then (.literalInteger, 2 + digits isDigit (cs.drop 2)) else decimal cs
    | none => decimal cs
  | _ => decimal cs

/-! ### Strings -/

def quotedRest (quote : Char) : List Char → Nat × Bool
  | [] => (0, false)
  | '\\' :: _ :: cs => let (n, closed) := quotedRest quote cs; (n + 2, closed)
  | c :: cs => if c == quote then (1, true) else let (n, closed) := quotedRest quote cs; (n + 1, closed)

/-- The rest of a double-quoted string in which no variable occurs, or `none` when one does. -/
def plainRest : List Char → Option (Nat × Bool)
  | [] => some (0, false)
  | '"' :: _ => some (1, true)
  | '\\' :: _ :: cs => (plainRest cs).map fun (n, closed) => (n + 2, closed)
  | '{' :: '$' :: _ => none
  | '$' :: '{' :: _ => none
  | '$' :: c :: cs =>
    if isLabelStart c then none else (plainRest (c :: cs)).map fun (n, closed) => (n + 1, closed)
  | _ :: cs => (plainRest cs).map fun (n, closed) => (n + 1, closed)

def literalKind (closed : Bool) : TokenKind := if closed then .literalString else .partialLiteralString

/-- The length of a line break that is not a lone carriage return. -/
def lineBreak? : List Char → Option Nat
  | '\n' :: _ => some 1
  | '\r' :: '\n' :: _ => some 2
  | _ => none

def quotedLabel? (quote : Char) (cs : List Char) : Option (List Char × Nat) :=
  let label := cs.takeWhile isNamePart
  let behind := cs.drop label.length
  if cs.head?.any isLabelStart && behind.head? == some quote then
    (lineBreak? (behind.drop 1)).map fun n => (label, label.length + 1 + n)
  else none

def bareLabel? (cs : List Char) : Option (List Char × Nat) :=
  let label := cs.takeWhile isNamePart
  if cs.head?.any isLabelStart then
    (lineBreak? (cs.drop label.length)).map fun n => (label, label.length + n)
  else none

def documentStart (cs : List Char) : Option (DocumentKind × List Char × Nat) :=
  if startsWith "<<<" cs then
    let opening := 3 + runLength isSpace (cs.drop 3)
    match cs.drop opening with
    | '"' :: rest => (quotedLabel? '"' rest).map fun (label, n) => (.heredoc, label, opening + 1 + n)
    | '\'' :: rest => (quotedLabel? '\'' rest).map fun (label, n) => (.nowdoc, label, opening + 1 + n)
    | rest => (bareLabel? rest).map fun (label, n) => (.heredoc, label, opening + n)
  else none

/-! ### Symbols and casts -/

/-- The length of the beginning of `cs` that is `pattern` in any case and with any white space in it. -/
def spacedLength? : List Char → List Char → Option Nat
  | [], _ => some 0
  | _ :: _, [] => none
  | p :: ps, c :: cs =>
    if isSpace c then (spacedLength? (p :: ps) cs).map (· + 1)
    else if c.toLower == p then (spacedLength? ps cs).map (· + 1)
    else none

def cast (cs : List Char) : Option (TokenKind × Nat) :=
  if startsWith "(" cs then
    TokenKind.casts.findSome? fun (type, kind) =>
      (spacedLength? ("(" ++ type ++ ")").toList cs).map fun n => (kind, n)
  else none

def symbol (cs : List Char) : Option (TokenKind × Nat) :=
  (TokenKind.symbols.find? fun (s, _) => startsWith s cs).map fun (s, kind) => (kind, s.length)

/-- The next token of PHP code, `none` when no token begins with the character. Strings that hold
variables and documents give only their opening. -/
def token? (inString : Bool) (cs : List Char) : Option (TokenKind × Nat) :=
  match cs with
  | [] => none
  | '$' :: c :: rest =>
    if isNameStart c then some (.varName, 1 + runLength isNamePart (c :: rest)) else symbol cs
  | '\\' :: c :: rest =>
    if isNameStart c then some (.fullyQualifiedIdentifier, 1 + absoluteRest (c :: rest))
    else symbol cs
  | '\'' :: rest => let (n, closed) := quotedRest '\'' rest; some (literalKind closed, n + 1)
  | '"' :: rest =>
    match plainRest rest with
    | some (n, closed) => some (literalKind closed, n + 1)
    | none => some (.doubleQuote, 1)
  | '`' :: _ => some (.backtick, 1)
  | c :: rest =>
    if isNameStart c then some (word inString cs)
    else if c.isDigit then some (number cs)
    else if c == '.' && rest.head?.any Char.isDigit then some (decimal cs)
    else match documentStart cs with
      | some (kind, _, n) => some (.documentStart kind, n)
      | none => (cast cs).or (symbol cs)

/-! ### The next lexeme -/

end Lexeme

inductive Lexeme where
  /-- White space or a comment. -/
  | trivia (length : Nat)
  | token (kind : TokenKind) (length : Nat)
  | unclosedComment
  /-- A character with which no token begins. -/
  | stray
deriving Repr, DecidableEq

namespace Lexeme

def ofToken? : Option (TokenKind × Nat) → Lexeme
  | some (kind, n) => .token kind n
  | none => .stray

/-- The first lexeme of PHP code. `#[` opens attributes, and a block comment is one only if something follows
its opening. -/
def next (inString : Bool) (cs : List Char) : Lexeme :=
  match cs with
  | '/' :: '/' :: rest => .trivia (lineComment rest + 2)
  | '/' :: '*' :: c :: rest =>
    match blockComment (c :: rest) with
    | some n => .trivia (n + 2)
    | none => .unclosedComment
  | '#' :: '[' :: _ => ofToken? (symbol cs)
  | '#' :: rest => .trivia (lineComment rest + 1)
  | _ =>
    let blanks := runLength isSpace cs
    if blanks != 0 then .trivia blanks else ofToken? (token? inString cs)

end Lexeme

end PhpInspect.Php
