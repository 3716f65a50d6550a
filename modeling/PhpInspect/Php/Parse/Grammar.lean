import PhpInspect.Php.Parse.Basic

/-! # The parsers that call each other

Expressions hold statements, in closures, and statements hold expressions. Each parser takes the two parsers of
a `Grammar` for what lies deeper.
-/

namespace PhpInspect.Php

/-- How tightly operators bind, the loosest first. -/
inductive Level where
  | lowest | print | yieldFrom | yieldValue | wordOr | wordXor | wordAnd | assignment | conditional
  | coalesce | or | and | bitOr | bitXor | bitAnd | equality | comparison | pipe | concat | shift
  | additive | multiplicative | unary | instanceOf | silence | power | clone | increment | reference
  | call | new | index | access
deriving Repr, DecidableEq

namespace Level

def rank (level : Level) : Nat := level.ctorIdx

end Level

structure Grammar where
  operand : Level → Parse Expr
  statement : Parse Stmt

namespace Grammar

open Parse

/-- An expression up to where no operator extends it. -/
def value (g : Grammar) : Parse Expr := g.operand .lowest

/-- An expression in parentheses, of which only the inside is kept. -/
def inParens (g : Grammar) : Parse Expr := do
  let _ ← expect .leftParenthesis
  let e ← g.value
  let _ ← expect .rightParenthesis
  return e

def block (g : Grammar) : Parse (Phrase .block) := do
  let start := (← expect .leftBrace).span.start
  let statements ← untilOneOf [.rightBrace] g.statement
  let _ ← expect .rightBrace
  return .block (← spanFrom start) (.ofList statements)

end Grammar

end PhpInspect.Php
