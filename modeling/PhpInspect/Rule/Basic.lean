import PhpInspect.Issue.Basic
import PhpInspect.Tree.Basic

/-! # Rules

The two rules, what they find and why they may fail. A rule looks at one function or method at a time.
-/

namespace PhpInspect

inductive Rule where
  | undefinedVariable
  | unreachableCode
deriving Repr, DecidableEq

structure Violation where
  rule : Rule
  node : Nat
  line : Nat
  endLine : Nat
  /-- What the message names. -/
  token : String
deriving Repr, DecidableEq

/-- The tree does not have the shape that a rule relies on. -/
inductive RuleError where
  | missingChild (parent kind : Kind) (line : Nat)
  | missingParent (node : Kind) (line : Nat)
deriving Repr, DecidableEq

namespace RuleError

def message : RuleError → String
  | .missingChild parent kind line =>
    parent.name ++ " on line " ++ toString line ++ " has no " ++ kind.name ++ " child"
  | .missingParent node line => node.name ++ " on line " ++ toString line ++ " has no parent"

def line : RuleError → Nat
  | .missingChild _ _ line => line
  | .missingParent _ line => line

end RuleError

namespace Rule

/-- All rules, in the order in which they run. -/
def all : List Rule := [.undefinedVariable, .unreachableCode]

theorem mem_all (r : Rule) : r ∈ all := by cases r <;> decide

def id : Rule → String
  | .undefinedVariable => "UndefinedVariable"
  | .unreachableCode => "UnreachableCode"

def ids : List String := all.map id

def description : Rule → String
  | .undefinedVariable => "Detects local variables that are used without ever being defined"
  | .unreachableCode => "Detects statements that follow a return or throw in the same block"

def severity : Rule → Severity
  | .undefinedVariable => .error
  | .unreachableCode => .warning

def options : Rule → List (String × String)
  | .undefinedVariable => [("ignorePregMatch", "false"), ("analyzeClosures", "true")]
  | .unreachableCode => [("finality", "structural")]

def message : Rule → String → String
  | .undefinedVariable, token =>
    "Avoid using undefined variables such as '" ++ token ++ "' which will lead to PHP notices."
  | .unreachableCode, token => "The code after this '" ++ token ++ "' statement is unreachable."

/-- The rule of a name, whatever the case of its ASCII letters. -/
def ofName? (name : String) : Option Rule := all.find? fun r => r.id.toLower == name.toLower

def violationAt (r : Rule) (t : Tree) (i : Nat) : Violation :=
  { rule := r, node := i, line := t.beginLine i, endLine := t.endLine i, token := t.image i }

end Rule

namespace Tree

def parentOf (t : Tree) (i : Nat) : Except RuleError Nat :=
  match t.parent i with
  | some p => .ok p
  | none => .error (.missingParent (t.kind i) (t.beginLine i))

theorem parentOf_eq_ok_iff {t : Tree} {i p : Nat} : t.parentOf i = .ok p ↔ t.parent i = some p := by
  rw [parentOf]
  cases t.parent i <;> simp

def requireChild (t : Tree) (i : Nat) (kind : Kind) : Except RuleError Nat :=
  match t.firstChildOfKind i kind with
  | some c => .ok c
  | none => .error (.missingChild (t.kind i) kind (t.beginLine i))

def isFirstChild (t : Tree) (i : Nat) : Bool := t.indexInParent i == some 0

end Tree

end PhpInspect
