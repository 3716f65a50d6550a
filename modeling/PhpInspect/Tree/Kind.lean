/-! # Kinds of nodes

The closed set of constructs that the rules tell apart.
-/

namespace PhpInspect

inductive Kind where
  | program
  /-- A class, trait, interface or enumeration. -/
  | classLike
  | function
  | method
  | closure
  | formalParameters
  | formalParameter
  /-- The variable of a parameter. -/
  | variableDeclarator
  /-- The `use` clause of a closure. -/
  | closureUse
  /-- The body of a function, method or closure. -/
  | scope
  /-- Any other block, or the wrapper around a body without braces. -/
  | scopeStatement
  /-- A statement without a kind of its own. -/
  | statement
  | echoStatement
  | returnStatement
  | throwStatement
  | ifStatement
  | elseIfStatement
  | elseStatement
  | switchStatement
  /-- A `case` or `default` with its statements. -/
  | switchLabel
  | tryStatement
  | catchStatement
  | finallyStatement
  | foreachStatement
  | forStatement
  | whileStatement
  | doWhileStatement
  | globalStatement
  | staticStatement
  /-- An expression without a kind of its own. -/
  | expression
  | assignmentExpression
  | unaryExpression
  | listExpression
  | arrayExpression
  | arrayIndexExpression
  | issetExpression
  | allocationExpression
  /-- A function call. -/
  | functionPostfix
  /-- A method call. -/
  | methodPostfix
  /-- A property or class constant. -/
  | propertyPostfix
  | arguments
  | namedArgument
  /-- A variable that is named outright. -/
  | var
deriving Repr, DecidableEq, Inhabited

namespace Kind

def all : List Kind :=
  [.program, .classLike, .function, .method, .closure, .formalParameters, .formalParameter,
    .variableDeclarator, .closureUse, .scope, .scopeStatement, .statement, .echoStatement,
    .returnStatement, .throwStatement, .ifStatement, .elseIfStatement, .elseStatement,
    .switchStatement, .switchLabel, .tryStatement, .catchStatement, .finallyStatement,
    .foreachStatement, .forStatement, .whileStatement, .doWhileStatement, .globalStatement,
    .staticStatement, .expression, .assignmentExpression, .unaryExpression, .listExpression,
    .arrayExpression, .arrayIndexExpression, .issetExpression, .allocationExpression,
    .functionPostfix, .methodPostfix, .propertyPostfix, .arguments, .namedArgument, .var]

def name : Kind → String
  | .program => "Program"
  | .classLike => "Class"
  | .function => "Function"
  | .method => "Method"
  | .closure => "Closure"
  | .formalParameters => "FormalParameters"
  | .formalParameter => "FormalParameter"
  | .variableDeclarator => "VariableDeclarator"
  | .closureUse => "ClosureUse"
  | .scope => "Scope"
  | .scopeStatement => "ScopeStatement"
  | .statement => "Statement"
  | .echoStatement => "EchoStatement"
  | .returnStatement => "ReturnStatement"
  | .throwStatement => "ThrowStatement"
  | .ifStatement => "IfStatement"
  | .elseIfStatement => "ElseIfStatement"
  | .elseStatement => "ElseStatement"
  | .switchStatement => "SwitchStatement"
  | .switchLabel => "SwitchLabel"
  | .tryStatement => "TryStatement"
  | .catchStatement => "CatchStatement"
  | .finallyStatement => "FinallyStatement"
  | .foreachStatement => "ForeachStatement"
  | .forStatement => "ForStatement"
  | .whileStatement => "WhileStatement"
  | .doWhileStatement => "DoWhileStatement"
  | .globalStatement => "GlobalStatement"
  | .staticStatement => "StaticStatement"
  | .expression => "Expression"
  | .assignmentExpression => "AssignmentExpression"
  | .unaryExpression => "UnaryExpression"
  | .listExpression => "ListExpression"
  | .arrayExpression => "ArrayExpression"
  | .arrayIndexExpression => "ArrayIndexExpression"
  | .issetExpression => "IssetExpression"
  | .allocationExpression => "AllocationExpression"
  | .functionPostfix => "FunctionPostfix"
  | .methodPostfix => "MethodPostfix"
  | .propertyPostfix => "PropertyPostfix"
  | .arguments => "Arguments"
  | .namedArgument => "NamedArgument"
  | .var => "Variable"

def ofName? (name : String) : Option Kind := all.find? (·.name == name)

theorem mem_all (k : Kind) : k ∈ all := by cases k <;> decide

/-- The kinds that open a variable scope of their own. -/
def isCallable : Kind → Bool
  | .function | .method | .closure => true
  | _ => false

/-- The kinds that are analysed as a unit; a closure belongs to the unit around it. -/
def isUnit : Kind → Bool
  | .function | .method => true
  | _ => false

end Kind

end PhpInspect
