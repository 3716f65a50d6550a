import PhpInspect.Php.Parse.Grammar

/-! # Operators -/

namespace PhpInspect.Php

def TokenKind.infixLevel? : TokenKind → Option Level
  | .kwOr => some .wordOr
  | .kwXor => some .wordXor
  | .kwAnd => some .wordAnd
  | .equal | .plusEqual | .minusEqual | .asteriskEqual | .slashEqual | .percentEqual | .dotEqual
  | .asteriskAsteriskEqual | .ampersandEqual | .pipeEqual | .caretEqual | .leftShiftEqual
  | .rightShiftEqual | .questionQuestionEqual => some .assignment
  | .question => some .conditional
  | .questionQuestion => some .coalesce
  | .pipePipe => some .or
  | .ampersandAmpersand => some .and
  | .pipe => some .bitOr
  | .caret => some .bitXor
  | .ampersand => some .bitAnd
  | .equalEqual | .equalEqualEqual | .bangEqual | .bangEqualEqual | .lessThanGreaterThan
  | .lessThanEqualGreaterThan => some .equality
  | .lessThan | .lessThanEqual | .greaterThan | .greaterThanEqual => some .comparison
  | .pipeGreaterThan => some .pipe
  | .dot => some .concat
  | .leftShift | .rightShift => some .shift
  | .plus | .minus => some .additive
  | .asterisk | .slash | .percent => some .multiplicative
  | .kwInstanceof => some .instanceOf
  | .asteriskAsterisk => some .power
  | _ => none

/-- The level of what may follow an operand, if the kind begins such a thing. -/
def TokenKind.postfixLevel? : TokenKind → Option Level
  | .plusPlus | .minusMinus => some .increment
  | .leftParenthesis => some .call
  | .leftBracket => some .index
  | .minusGreaterThan | .questionMinusGreaterThan | .colonColon => some .access
  | _ => none

def TokenKind.prefixLevel? : TokenKind → Option Level
  | .bang | .tilde | .plus | .minus => some .unary
  | .arrayCast | .boolCast | .booleanCast | .doubleCast | .realCast | .floatCast | .intCast
  | .integerCast | .objectCast | .unsetCast | .stringCast | .binaryCast | .voidCast => some .unary
  | .at => some .silence
  | .plusPlus | .minusMinus => some .increment
  | .ampersand => some .reference
  | _ => none

namespace Level

/-- Whether equal operators group to the left. -/
def isLeft : Level → Bool
  | .multiplicative | .additive | .concat | .shift | .bitAnd | .bitOr | .bitXor | .and | .or | .wordAnd
  | .wordXor | .wordOr | .pipe | .conditional => true
  | _ => false

/-- Whether an operator of level `operator` is taken while operands of level `current` are read. -/
def takes (current operator : Level) : Bool :=
  current.rank < operator.rank || (current.rank == operator.rank && !operator.isLeft)

end Level

/-- The assignment of a value to an expression. To assign to an operator expression is to assign to its last
operand, so that `!$a = 1` reads `!($a = 1)`. -/
def assignTo (value : Expr) : Expr → Expr
  | .prefixed s false e => .prefixed (s.join value.span) false (assignTo value e)
  | .binary s left right => .binary (s.join value.span) left (assignTo value right)
  | .conditional s condition yes no => .conditional (s.join value.span) condition yes (assignTo value no)
  | target => .assign (target.span.join value.span) target value

end PhpInspect.Php
