import PhpInspect.Php.Parse.Statement

/-! # Programs

Reading a file: its statements up to the first error, and the error.
-/

namespace PhpInspect.Php

/-- The grammar that reads what is nested at most `depth` deep. -/
def Grammar.within : Nat → Grammar
  | 0 => { operand := fun _ => Parse.unexpected, statement := Parse.unexpected }
  | depth + 1 =>
    { operand := fun level => (Grammar.within depth).operandAt level
      statement := fun cursor => (Grammar.within depth).statementAt cursor }

structure Program where
  statements : List Stmt
  /-- Why reading stopped before the end. -/
  error : Option ParseError

namespace Program

/-- Reads statements until the tokens run out or one is wrong, at most `bound` of them. -/
def readWith (statement : Parse Stmt) : Nat → Cursor → List Stmt → Program
  | 0, _, read => { statements := read.reverse, error := none }
  | bound + 1, cursor, read =>
    if cursor.tokens.isEmpty && cursor.fault.isNone then
      { statements := read.reverse, error := none }
    else
      match statement cursor with
      | .ok (s, rest) => readWith statement bound rest (s :: read)
      | .error e => { statements := read.reverse, error := some e }

/-- Every nested phrase takes a token of its own, so that no program is nested deeper than it is long. -/
def ofTokens (tokens : Tokens) : Program :=
  let size := tokens.list.length
  let cursor : Cursor := { tokens := tokens.list, left := size, stop := 0, fault := tokens.fault, inString := false }
  readWith (Grammar.within (2 * size + 2)).statement (size + 1) cursor []

def ofText (text : String) : Program := ofTokens (Tokens.ofText text)

end Program

end PhpInspect.Php
