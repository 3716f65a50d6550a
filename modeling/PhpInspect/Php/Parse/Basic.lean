import PhpInspect.Php.Parse.Error
import PhpInspect.Php.Phrase
import PhpInspect.Php.Token.Scan

/-! # Reading tokens

Parsers read tokens from the front of a list and stop at the first error. Repetitions are bounded by the
number of tokens that are left.
-/

namespace PhpInspect.Php

structure Cursor where
  tokens : List Token
  /-- How many there are. -/
  left : Nat
  /-- Where the last token that was read ends. -/
  stop : Nat
  /-- What is wrong behind the last token, if it is not the end of the file. -/
  fault : Option Fault
  /-- Whether the tokens belong to a variable inside a string that has no braces around it. -/
  inString : Bool

abbrev Parse := StateT Cursor (Except ParseError)

namespace Parse

variable {α : Type}

def endError (c : Cursor) : ParseError :=
  match c.fault with
  | none => .unexpectedEnd
  | some fault => .unreadable fault

/-- The kind of the token at a distance, if there is one. Only the end of the file is no error. -/
def kindAt? (distance : Nat) : Parse (Option TokenKind) := fun c =>
  match c.tokens[distance]?, c.fault with
  | some t, _ => .ok (some t.kind, c)
  | none, none => .ok (none, c)
  | none, some fault => .error (.unreadable fault)

def kind? : Parse (Option TokenKind) := kindAt? 0

def peek : Parse Token := fun c =>
  match c.tokens with
  | [] => .error (endError c)
  | t :: _ => .ok (t, c)

def next : Parse Token := fun c =>
  match c.tokens with
  | [] => .error (endError c)
  | t :: ts => .ok (t, { c with tokens := ts, left := c.left - 1, stop := t.span.stop })

def lastStop : Parse Nat := do return (← get).stop

def spanFrom (start : Nat) : Parse Span := do return ⟨start, ← lastStop⟩

def unexpected : Parse α := do throw (.unexpectedToken (← peek).kind)

def expectOneOf (kinds : List TokenKind) : Parse Token := do
  let t ← peek
  if kinds.contains t.kind then next else throw (.expected kinds t.kind)

def expect (kind : TokenKind) : Parse Token := expectOneOf [kind]

def at? (kind : TokenKind) : Parse Bool := do return (← kind?) == some kind

def take? (kind : TokenKind) : Parse (Option Token) := do
  if ← at? kind then return some (← next) else return none

def skip? (kind : TokenKind) : Parse Bool := do return (← take? kind).isSome

/-! ### Repetition -/

/-- Repeats `item` while `more` holds, at most as often as there are tokens left. -/
def whileMore (more : Parse Bool) (item : Parse α) : Parse (List α) := do
  go ((← get).left + 1) []
where
  go : Nat → List α → Parse (List α)
  | 0, read => return read.reverse
  | bound + 1, read => do
    if ← more then
      let x ← item
      go bound (x :: read)
    else return read.reverse

/-- Items up to a token of one of the given kinds, which is left unread. -/
def untilOneOf (kinds : List TokenKind) (item : Parse α) : Parse (List α) :=
  whileMore (do return !kinds.contains (← peek).kind) item

def commaSeparated (item : Parse α) : Parse (List α) := do
  let first ← item
  let rest ← whileMore (skip? .comma) item
  return first :: rest

/-- Items with commas between them, and perhaps a comma after the last, up to a token of one of some kinds. -/
def commaList (closing : List TokenKind) (item : Parse α) : Parse (List α) := do
  go ((← get).left + 1) []
where
  go : Nat → List α → Parse (List α)
  | 0, read => return read.reverse
  | bound + 1, read => do
    if closing.contains (← peek).kind then return read.reverse
    let x ← item
    if ← skip? .comma then go bound (x :: read) else return (x :: read).reverse

/-- Items as in `commaList`, between two tokens of which the first has been read. -/
def commaListTo (close : TokenKind) (item : Parse α) : Parse (List α) := do
  let items ← commaList [close] item
  let _ ← expect close
  return items

/-! ### Names and ends of statements -/

/-- A name, which may be a keyword. -/
def name : Parse Token := do
  let t ← peek
  if t.kind.isWord then next else throw (.expected [.identifier] t.kind)

def qualifiedName : Parse Token := do
  let t ← peek
  if t.kind == .qualifiedIdentifier || t.kind == .fullyQualifiedIdentifier then next else name

def endings : List TokenKind := [.semicolon, .closeTag]

/-- A statement ends with a semicolon or a closing tag, the latter together with an opening tag directly
behind it. -/
def terminator : Parse Unit := do
  let t ← expectOneOf endings
  if t.kind == .closeTag then
    if (← at? .openTag) || (← at? .shortOpenTag) then
      let _ ← next

def optionalTerminator : Parse Unit := do
  if (← kind?).any endings.contains then terminator

end Parse

end PhpInspect.Php
