import PhpInspect.Rule.Basic
import PhpInspect.Text.LowerCase

/-! # Code after a `return` or `throw`

A terminator that is not the last statement of its block is followed by statements that never run. Whether it is
the last is read off the tree, or off the lines on which the statements end.
-/

namespace PhpInspect

inductive Finality where
  /-- By the place in the list of statements. -/
  | structural
  /-- By line numbers, on the assumption that every statement has its own line. -/
  | lines
deriving Repr, DecidableEq

namespace Finality

def ofName? (name : String) : Option Finality :=
  match Text.toLower name with
  | "structural" => some .structural
  | "lines" => some .lines
  | _ => none

end Finality

namespace UnreachableCode

def isTerminator (kind : Kind) : Bool := kind == .returnStatement || kind == .throwStatement

def enclosingUnit (t : Tree) (i : Nat) : Option Nat := (t.ancestors i).find? fun a => (t.kind a).isUnit

/-- The terminators of a unit with those of its closures, without those of functions inside of it. -/
def terminators (t : Tree) (unit : Nat) : List Nat :=
  (t.descendants unit).filter fun i => isTerminator (t.kind i) && enclosingUnit t i == some unit

/-! ### Finality by lines -/

/-- Whether a node ends on the last line of another or on the line before. -/
def endsWith (t : Tree) (scope i : Nat) : Bool :=
  t.endLine i == t.endLine scope || t.endLine i + 1 == t.endLine scope

def endsUnit (t : Tree) (unit block i : Nat) : Bool := t.kind block == .scope && endsWith t unit i

/-- A test on the parent of a block, which must be there if the block is of the given kind. -/
def above (t : Tree) (kind : Kind) (block : Nat) (test : Nat → Except RuleError Bool) : Except RuleError Bool :=
  if t.kind block == kind then do test (← t.parentOf block) else return false

def endsBranch (t : Tree) (block i : Nat) : Except RuleError Bool :=
  above t .scopeStatement block fun branch =>
    return (t.kind branch == .ifStatement || t.kind branch == .elseIfStatement
      || t.kind branch == .elseStatement) && endsWith t block i

/-- A case has no closing line, so that the lines must agree. -/
def endsCase (t : Tree) (block i : Nat) : Except RuleError Bool :=
  above t .switchLabel block fun switch =>
    return t.kind switch == .switchStatement && t.endLine i == t.endLine block

/-- Whether nothing follows a `try` statement in its own block. -/
def endsOuter (t : Tree) (attempt : Nat) : Except RuleError Bool := do
  return endsWith t (← t.parentOf attempt) attempt

def endsTry (t : Tree) (block i : Nat) : Except RuleError Bool :=
  above t .scopeStatement block fun attempt => do
    if t.kind attempt != .tryStatement || !endsWith t block i then return false
    if (t.firstChildOfKind attempt .finallyStatement).isSome then return false
    endsOuter t attempt

def endsCatch (t : Tree) (block i : Nat) : Except RuleError Bool :=
  above t .scopeStatement block fun handler =>
    return t.kind handler == .catchStatement && endsWith t block i

def endsFinally (t : Tree) (block i : Nat) : Except RuleError Bool :=
  above t .scopeStatement block fun final => do
    if t.kind final != .finallyStatement || !endsWith t block i then return false
    endsOuter t (← t.parentOf final)

def endsClosure (t : Tree) (block i : Nat) : Except RuleError Bool :=
  above t .scope block fun closure => return t.kind closure == .closure && endsWith t block i

/-- Whether one of the tests holds; those behind it are not tried. -/
def anyOf : List (Except RuleError Bool) → Except RuleError Bool
  | [] => return false
  | test :: tests => do if ← test then return true else anyOf tests

def endsItsBlock (t : Tree) (unit i : Nat) : Except RuleError Bool := do
  let block ← t.parentOf i
  anyOf [return endsUnit t unit block i, endsBranch t block i, endsCase t block i, endsTry t block i,
    endsCatch t block i, endsFinally t block i, endsClosure t block i]

/-! ### The rule -/

def isFinal (t : Tree) (finality : Finality) (unit i : Nat) : Except RuleError Bool :=
  match finality with
  | .structural => return t.isLastChild i
  | .lines => endsItsBlock t unit i

def report (t : Tree) (finality : Finality) (unit : Nat) : Except RuleError (List Violation) := do
  let found ← (terminators t unit).filterM fun i => do return !(← isFinal t finality unit i)
  return found.map (Rule.unreachableCode.violationAt t)

end UnreachableCode

end PhpInspect
