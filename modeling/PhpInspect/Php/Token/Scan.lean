import PhpInspect.Php.Token.Lexeme

/-! # From text to tokens

A file alternates between inline text and PHP code. Within code, a string that holds variables alternates
between literal parts and stretches of code whose end is known when they begin. A stretch ends with the
lexeme that reaches its end, wherever that lexeme itself ends. White space and comments are dropped.
-/

namespace PhpInspect.Php

inductive Mode where
  /-- Text outside of the PHP tags. -/
  | inline
  | code
  /-- The punctuation after `__halt_compiler`, of which `due` is still to come. -/
  | halting (due : List TokenKind)
  /-- Text that is not read any more. -/
  | halted
  /-- A string between double quotes. -/
  | quoted
  /-- A string between backticks. -/
  | shell
  | document (kind : DocumentKind) (label : List Char)
deriving Repr, DecidableEq

/-- A stretch of code inside a string: the byte offset at which it ends, and how to read on behind it. -/
structure Stretch where
  stop : Nat
  resume : Mode
deriving Repr, DecidableEq

/-- The tokens of a text, and what is wrong behind the last of them if they do not reach its end. -/
structure Tokens where
  list : List Token
  fault : Option Fault
deriving Repr

namespace Scan

open Lexeme

def byteLength (cs : List Char) : Nat := cs.foldl (fun n c => n + c.utf8Size) 0

/-! ### Variables in strings -/

/-- The rest of an index such as `[key]`, which white space ends early. -/
def indexRest (depth : Nat) : List Char → Nat
  | [] => 0
  | c :: cs =>
    if c == ']' then match depth with
      | 0 => 1
      | d + 1 => indexRest d cs + 1
    else if c == '[' then indexRest (depth + 1) cs + 1
    else if isSpace c then 0
    else indexRest depth cs + 1

/-- A variable inside a string takes one index or one property with it. -/
def simpleVariable (cs : List Char) : Nat :=
  let n := 1 + runLength isNamePart (cs.drop 1)
  match cs.drop n with
  | '[' :: rest => n + 1 + indexRest 0 rest
  | '-' :: '>' :: c :: rest => if isLabelStart c then n + 2 + runLength isNamePart (c :: rest) else n
  | '?' :: '-' :: '>' :: c :: rest => if isLabelStart c then n + 3 + runLength isNamePart (c :: rest) else n
  | _ => n

def bracedRest (depth : Nat) : List Char → Nat
  | [] => 0
  | c :: cs =>
    if c == '}' then match depth with
      | 0 => 1
      | d + 1 => bracedRest d cs + 1
    else if c == '{' then bracedRest (depth + 1) cs + 1
    else bracedRest depth cs + 1

def stretch? (cs : List Char) : Option Nat :=
  match cs with
  | '{' :: '$' :: rest => some (2 + bracedRest 0 rest)
  | '$' :: '{' :: rest => some (2 + bracedRest 0 rest)
  | '$' :: c :: _ => if isNameStart c then some (simpleVariable cs) else none
  | _ => none

/-- The literal part of a string up to code or the closing quote. Between double quotes a backslash can itself
be escaped, between backticks it cannot. -/
def quotedPart (quote : Char) (escaped : Bool) : List Char → Nat
  | [] => 0
  | c :: cs =>
    if !escaped && ((stretch? (c :: cs)).isSome || c == quote) then 0
    else quotedPart quote (c == '\\' && !(escaped && quote == '"')) cs + 1

/-- A document ends where a line holds its label after white space. -/
def labelHere (label cs : List Char) : Bool :=
  label.isPrefixOf cs && !((cs.drop label.length).head?.any Char.isAlphanum)

/-- The literal part of a document up to code, the end of the line or the closing label: its length and
whether the label closes it. `fresh` while only white space has been read on the line. White space does not
end what a backslash escapes. -/
def documentPart (kind : DocumentKind) (label : List Char) (fresh escaped : Bool) : List Char → Nat × Bool
  | [] => (0, false)
  | '\r' :: '\n' :: _ => (2, false)
  | '\r' :: _ => (1, false)
  | '\n' :: _ => (1, false)
  | c :: cs =>
    if isSpace c then
      let (n, closed) := documentPart kind label fresh escaped cs
      (n + 1, closed)
    else if kind == .heredoc && !escaped && (stretch? (c :: cs)).isSome then (0, false)
    else if fresh && labelHere label (c :: cs) then (label.length, true)
    else
      let (n, closed) := documentPart kind label false (c == '\\') cs
      (n + 1, closed)

/-! ### Inline text -/

def inlineText : List Char → Nat
  | [] => 0
  | '<' :: '?' :: _ => 0
  | _ :: cs => inlineText cs + 1

def wholeLine (cs : List Char) : Nat :=
  let n := runLength (· != '\n') cs
  if (cs.drop n).isEmpty then n else n + 1

def inlineToken (cs : List Char) : TokenKind × Nat × Mode :=
  if startsWithNoCase "<?php" cs then (.openTag, 5, .code)
  else if startsWith "<?=" cs then (.echoTag, 3, .code)
  else if startsWith "<?" cs then (.shortOpenTag, 2, .code)
  else if startsWith "#!" cs then (.inlineShebang, wholeLine cs, .inline)
  else (.inlineText, inlineText cs, .inline)

/-! ### One step -/

structure Step where
  kind : Option TokenKind
  length : Nat
  mode : Mode
  /-- The length of the code that follows, if the step ends where a string holds some. -/
  stretch : Option Nat := none

def modeAfter (kind : TokenKind) (cs : List Char) : Mode :=
  match kind with
  | .doubleQuote => .quoted
  | .backtick => .shell
  | .documentStart _ => match documentStart cs with
    | some (kind, label, _) => .document kind label
    | none => .code
  | .kwHaltCompiler => .halting [.leftParenthesis, .rightParenthesis, .semicolon]
  | .closeTag => .inline
  | _ => .code

/-- White space, or the punctuation that is due next. The last of it may be a closing tag. -/
def haltingStep (due : List TokenKind) (cs : List Char) : Option Step :=
  let blanks := runLength isSpace cs
  if blanks != 0 then some { kind := none, length := blanks, mode := .halting due }
  else match due, symbol cs with
    | [_], some (.closeTag, n) => some { kind := some .closeTag, length := n, mode := .halted }
    | expected :: rest, some (kind, n) =>
      if kind == expected then
        some { kind := some kind, length := n, mode := if rest.isEmpty then .halted else .halting rest }
      else none
    | _, _ => none

def quotedStep (quote : Char) (close : TokenKind) (mode : Mode) (cs : List Char) : Step :=
  if cs.head? == some quote then { kind := some close, length := 1, mode := .code }
  else
    let n := quotedPart quote false cs
    { kind := some .stringPart, length := n, mode, stretch := stretch? (cs.drop n) }

def documentStep (kind : DocumentKind) (label cs : List Char) : Step :=
  let (n, closed) := documentPart kind label true false cs
  if closed then { kind := some .documentEnd, length := n, mode := .code }
  else
    let lineEnds := ((cs.take n).getLast?).any fun c => c == '\n' || c == '\r'
    let code := if kind == .heredoc && !lineEnds then stretch? (cs.drop n) else none
    { kind := some .stringPart, length := n, mode := .document kind label, stretch := code }

def step (mode : Mode) (inString : Bool) (cs : List Char) : Except Fault Step :=
  match mode with
  | .inline =>
    let (kind, length, mode) := inlineToken cs
    .ok { kind := some kind, length, mode }
  | .halted => .ok { kind := some .inlineText, length := cs.length, mode := .halted }
  | .halting due =>
    match haltingStep due cs with
    | some s => .ok s
    | none => .error (.misplaced ((String.ofList (cs.take 1)).toUTF8.data.getD 0 0))
  | .quoted => .ok (quotedStep '"' .doubleQuote .quoted cs)
  | .shell => .ok (quotedStep '`' .backtick .shell cs)
  | .document kind label => .ok (documentStep kind label cs)
  | .code =>
    match Lexeme.next inString cs with
    | .trivia length => .ok { kind := none, length, mode := .code }
    | .token kind length => .ok { kind := some kind, length, mode := modeAfter kind cs }
    | .unclosedComment => .error .unclosedComment
    | .stray => .error (.stray (cs.headD ' '))

end Scan

/-! ### The scanner -/

/-- What has been read so far, the last token first. -/
structure Scanner where
  mode : Mode
  /-- The stretches of code that are not finished, the innermost first. -/
  stretches : List Stretch
  read : List Token
  /-- What had been read before the outermost unfinished stretch. -/
  settled : List Token

namespace Scanner

/-- The result when nothing more is read. Nothing is kept of a stretch that is not finished. -/
def finish (s : Scanner) (fault : Option Fault) : Tokens :=
  if s.stretches.isEmpty then ⟨s.read.reverse, fault⟩ else ⟨s.settled.reverse, none⟩

def advance (s : Scanner) (step : Scan.Step) (start stop : Nat) (lexeme rest : List Char) : Scanner :=
  let read := match step.kind with
    | some kind => ⟨kind, ⟨start, stop⟩, String.ofList lexeme⟩ :: s.read
    | none => s.read
  let opened : Scanner := match step.stretch with
    | none => { s with mode := step.mode, read }
    | some n =>
      { mode := .code
        stretches := ⟨stop + Scan.byteLength (rest.take n), step.mode⟩ :: s.stretches
        read
        settled := if s.stretches.isEmpty then read else s.settled }
  match s.stretches with
  | [] => opened
  | inner :: outer =>
    if start ≤ inner.stop && inner.stop ≤ stop then { s with mode := inner.resume, stretches := outer, read }
    else opened

/-- Scans until the text or the steps run out. A step that reads nothing opens a stretch, and the next one reads
something of it, or closes a stretch, so four times as many steps as characters suffice. -/
def run : Nat → Scanner → Nat → List Char → Tokens
  | 0, s, _, _ => s.finish none
  | _ + 1, s, _, [] => s.finish none
  | steps + 1, s, offset, c :: cs =>
    match Scan.step s.mode (!s.stretches.isEmpty) (c :: cs) with
    | .error fault => s.finish (some fault)
    | .ok step =>
      let lexeme := (c :: cs).take step.length
      let rest := (c :: cs).drop step.length
      let stop := offset + Scan.byteLength lexeme
      run steps (s.advance step offset stop lexeme rest) stop rest

end Scanner

def Tokens.ofText (text : String) : Tokens :=
  let cs := text.toList
  Scanner.run (4 * cs.length + 4) { mode := .inline, stretches := [], read := [], settled := [] } 0 cs

end PhpInspect.Php
