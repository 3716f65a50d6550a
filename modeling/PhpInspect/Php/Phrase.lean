import PhpInspect.Source.Span

/-! # Phrases of PHP

A phrase is a piece of a program: an expression, a statement, an argument list and so on. All phrases form one
family, indexed by the category of the phrase, so that a function or a proof about programs is one recursion.
A phrase records where names stand and not how they read: names and operators can be read off the source.
Type hints, attributes and modifiers only widen the range of what they belong to.
-/

namespace PhpInspect.Php

/-- A variable that a closure takes from the scope around it, perhaps by reference. -/
structure Capture where
  span : Span
  byReference : Bool
  name : Span
deriving Repr, DecidableEq, Inhabited

structure Captures where
  span : Span
  items : List Capture
deriving Repr, DecidableEq, Inhabited

inductive StringForm where
  | quoted
  | document
  | shell
deriving Repr, DecidableEq, Inhabited

inductive Category where
  | var
  | expr
  | arguments
  | argument
  | selector
  | element
  | arm
  | parameters
  | parameter
  | hook
  | member
  | block
  | body
  | elseIf
  | otherwise
  | switchCase
  | handler
  | cleanup
  | staticItem
  | stmt
  | list (items : Category)
  | option (item : Category)
deriving Repr, DecidableEq

inductive Phrase : Category → Type where
  -- Sequences and optional phrases.
  | nil {c : Category} : Phrase (.list c)
  | cons {c : Category} (head : Phrase c) (tail : Phrase (.list c)) : Phrase (.list c)
  | none {c : Category} : Phrase (.option c)
  | some {c : Category} (value : Phrase c) : Phrase (.option c)
  /-- A variable named outright, as `$x`. -/
  | direct (name : Span) : Phrase .var
  /-- A variable whose name is computed, as `${e}`. -/
  | indirect (span : Span) (name : Phrase .expr) : Phrase .var
  /-- A variable named by another, as `$$x`. -/
  | nested (span : Span) (name : Phrase .var) : Phrase .var
  | ofVar (v : Phrase .var) : Phrase .expr
  /-- A name in the place of a function or a class. -/
  | name (span : Span) : Phrase .expr
  /-- A name in the place of a value. -/
  | constant (span : Span) : Phrase .expr
  /-- A literal, a magic constant, or one of `self`, `static` and `parent`. -/
  | literal (span : Span) : Phrase .expr
  | paren (span : Span) (inner : Phrase .expr) : Phrase .expr
  | assign (span : Span) (target value : Phrase .expr) : Phrase .expr
  | binary (span : Span) (left right : Phrase .expr) : Phrase .expr
  /-- An operator or cast before its operand; `inPlace` for `++` and `--`. -/
  | prefixed (span : Span) (inPlace : Bool) (operand : Phrase .expr) : Phrase .expr
  /-- An operator after its operand. -/
  | postfixed (span : Span) (operand : Phrase .expr) : Phrase .expr
  /-- A condition with its two outcomes; the first is absent in `a ?: b`. -/
  | conditional (span : Span) (condition : Phrase .expr) (yes : Phrase (.option .expr))
      (no : Phrase .expr) : Phrase .expr
  | call (span : Span) (callee : Phrase .expr) (arguments : Phrase .arguments) : Phrase .expr
  /-- A call through an object or a class. -/
  | methodCall (span : Span) (receiver : Phrase .expr) (method : Phrase .selector)
      (arguments : Phrase .arguments) : Phrase .expr
  /-- A callee with `...` in the place of its arguments, which makes a closure of it. -/
  | callable (span : Span) (callee : Phrase .expr) : Phrase .expr
  /-- A property or constant of an object or a class. -/
  | member (span : Span) (receiver : Phrase .expr) (selector : Phrase .selector) : Phrase .expr
  | index (span : Span) (array index : Phrase .expr) : Phrase .expr
  /-- An index left empty, as in `$a[] = 1`. -/
  | append (span : Span) (array : Phrase .expr) : Phrase .expr
  | array (span : Span) (elements : Phrase (.list .element)) : Phrase .expr
  /-- An array written with the keyword `array`. -/
  | legacyArray (span : Span) (elements : Phrase (.list .element)) : Phrase .expr
  | list (span : Span) (elements : Phrase (.list .element)) : Phrase .expr
  | closure (span : Span) (parameters : Phrase .parameters) (captures : Option Captures)
      (body : Phrase .block) : Phrase .expr
  | arrow (span : Span) (parameters : Phrase .parameters) (body : Phrase .expr) : Phrase .expr
  | instantiate (span : Span) (className : Phrase .expr) (arguments : Phrase (.option .arguments)) :
      Phrase .expr
  | anonymousClass (span : Span) (arguments : Phrase (.option .arguments))
      (members : Phrase (.list .member)) : Phrase .expr
  | isset (span : Span) (values : Phrase (.list .expr)) : Phrase .expr
  /-- A keyword with one operand, as `print $x`. -/
  | keyword (span : Span) (word : String) (operand : Phrase .expr) : Phrase .expr
  | throwing (span : Span) (thrown : Phrase .expr) : Phrase .expr
  /-- `exit` or `die`. -/
  | exit (span : Span) (word : String) (arguments : Phrase (.option .arguments)) : Phrase .expr
  | yieldValue (span : Span) (value : Phrase (.option .expr)) : Phrase .expr
  | yieldPair (span : Span) (key value : Phrase .expr) : Phrase .expr
  | pipe (span : Span) (input callable : Phrase .expr) : Phrase .expr
  /-- A string with the expressions embedded in it. -/
  | interpolated (span : Span) (form : StringForm) (parts : Phrase (.list .expr)) : Phrase .expr
  | matching (span : Span) (subject : Phrase .expr) (arms : Phrase (.list .arm)) : Phrase .expr
  | arguments (span : Span) (items : Phrase (.list .argument)) : Phrase .arguments
  | positional (value : Phrase .expr) : Phrase .argument
  /-- An argument after `...`. -/
  | spreadArgument (value : Phrase .expr) : Phrase .argument
  | namedArgument (span : Span) (name : Span) (value : Phrase .expr) : Phrase .argument
  -- What stands after `->`, `?->` or `::`.
  | selectName (name : Span) : Phrase .selector
  | selectVar (v : Phrase .var) : Phrase .selector
  | selectBraced (span : Span) (inner : Phrase .expr) : Phrase .selector
  -- Elements of an array or of a destructuring pattern.
  | pair (key value : Phrase .expr) : Phrase .element
  | single (value : Phrase .expr) : Phrase .element
  /-- An element after `...`. -/
  | spreadElement (value : Phrase .expr) : Phrase .element
  /-- A position left out, as in `[, $b]`. -/
  | missing : Phrase .element
  /-- An arm of a `match`; the default arm has no conditions. -/
  | arm (conditions : Phrase (.list .expr)) (value : Phrase .expr) : Phrase .arm
  | parameters (span : Span) (items : Phrase (.list .parameter)) : Phrase .parameters
  | parameter (span : Span) (name : Span) (fallback : Phrase (.option .expr))
      (hooks : Phrase (.list .hook)) : Phrase .parameter
  -- What a property does when it is read or written.
  | bareHook : Phrase .hook
  | exprHook (body : Phrase .expr) : Phrase .hook
  | blockHook (body : Phrase .block) : Phrase .hook
  /-- A method, without a body if it is abstract. -/
  | method (span : Span) (name : Span) (parameters : Phrase .parameters)
      (body : Phrase (.option .block)) : Phrase .member
  /-- A property, constant, enumeration case or trait use, with the values it mentions. -/
  | declaration (span : Span) (values : Phrase (.list .expr)) (hooks : Phrase (.list .hook)) :
      Phrase .member
  /-- Statements between braces. -/
  | block (span : Span) (statements : Phrase (.list .stmt)) : Phrase .block
  -- The body of a branch or loop.
  | stmtBody (statement : Phrase .stmt) : Phrase .body
  /-- A body between a colon and a closing keyword. `outer` is where it lies if it is empty. -/
  | colonBody (outer : Span) (statements : Phrase (.list .stmt)) : Phrase .body
  | elseIf (span : Span) (condition : Phrase .expr) (body : Phrase .body) : Phrase .elseIf
  | otherwise (span : Span) (body : Phrase .body) : Phrase .otherwise
  /-- A `case`, or the `default` case, which has no condition. -/
  | switchCase (span : Span) (condition : Phrase (.option .expr)) (statements : Phrase (.list .stmt)) :
      Phrase .switchCase
  /-- A `catch` clause, perhaps without a variable. -/
  | handler (span : Span) (binder : Option Span) (body : Phrase .block) : Phrase .handler
  /-- A `finally` clause. -/
  | cleanup (span : Span) (body : Phrase .block) : Phrase .cleanup
  | staticItem (name : Span) (initial : Phrase (.option .expr)) : Phrase .staticItem
  | exprStmt (span : Span) (value : Phrase .expr) : Phrase .stmt
  | ret (span : Span) (value : Phrase (.option .expr)) : Phrase .stmt
  | echo (span : Span) (values : Phrase (.list .expr)) : Phrase .stmt
  | blockStmt (body : Phrase .block) : Phrase .stmt
  | branch (span : Span) (condition : Phrase .expr) (body : Phrase .body)
      (elseIfs : Phrase (.list .elseIf)) (otherwise : Phrase (.option .otherwise)) : Phrase .stmt
  | switch (span : Span) (subject : Phrase .expr) (cases : Phrase (.list .switchCase)) : Phrase .stmt
  | tryCatch (span : Span) (body : Phrase .block) (handlers : Phrase (.list .handler))
      (cleanup : Phrase (.option .cleanup)) : Phrase .stmt
  | forEach (span : Span) (subject : Phrase .expr) (key : Phrase (.option .expr)) (value : Phrase .expr)
      (body : Phrase .body) : Phrase .stmt
  | forLoop (span : Span) (initial conditions increments : Phrase (.list .expr)) (body : Phrase .body) :
      Phrase .stmt
  | whileLoop (span : Span) (condition : Phrase .expr) (body : Phrase .body) : Phrase .stmt
  | doWhile (span : Span) (body : Phrase .body) (condition : Phrase .expr) : Phrase .stmt
  | global (span : Span) (names : Phrase (.list .var)) : Phrase .stmt
  | static (span : Span) (items : Phrase (.list .staticItem)) : Phrase .stmt
  | function (span : Span) (name : Span) (parameters : Phrase .parameters) (body : Phrase .block) :
      Phrase .stmt
  /-- A class, trait, interface or enumeration. -/
  | classLike (span : Span) (name : Span) (members : Phrase (.list .member)) : Phrase .stmt
  /-- The statements of a namespace. -/
  | namespaced (span : Span) (statements : Phrase (.list .stmt)) : Phrase .stmt
  /-- Any other statement, with the expressions and statements it holds. -/
  | other (span : Span) (values : Phrase (.list .expr)) (statements : Phrase (.list .stmt)) : Phrase .stmt

abbrev Expr := Phrase .expr

abbrev Stmt := Phrase .stmt

namespace Phrase

instance : Inhabited Expr := ⟨.literal default⟩

instance : Inhabited Stmt := ⟨.other default .nil .nil⟩

def ofList {c : Category} : List (Phrase c) → Phrase (.list c)
  | [] => .nil
  | p :: ps => .cons p (ofList ps)

def ofOption {c : Category} : Option (Phrase c) → Phrase (.option c)
  | Option.none => .none
  | Option.some p => .some p

/-- The range of a phrase in the source; only phrases that stand for nothing of their own have none. -/
def span : {c : Category} → Phrase c → Span
  | _, .direct s | _, .name s | _, .constant s | _, .selectName s | _, .staticItem s _ => s
  | _, .ofVar v | _, .selectVar v => v.span
  | _, .positional e | _, .spreadArgument e | _, .single e | _, .spreadElement e | _, .exprHook e => e.span
  | _, .pair k v => k.span.join v.span
  | _, .blockHook b | _, .blockStmt b => b.span
  | _, .stmtBody s => s.span
  | _, .some p => p.span
  | _, .indirect s _ | _, .nested s _ | _, .literal s | _, .paren s _ | _, .assign s _ _
  | _, .binary s _ _ | _, .prefixed s _ _ | _, .postfixed s _ | _, .conditional s _ _ _
  | _, .call s _ _ | _, .methodCall s _ _ _ | _, .callable s _ | _, .member s _ _ | _, .index s _ _
  | _, .append s _ | _, .array s _ | _, .legacyArray s _ | _, .list s _ | _, .closure s _ _ _
  | _, .arrow s _ _ | _, .instantiate s _ _ | _, .anonymousClass s _ _ | _, .isset s _
  | _, .keyword s _ _ | _, .throwing s _ | _, .exit s _ _ | _, .yieldValue s _ | _, .yieldPair s _ _
  | _, .pipe s _ _ | _, .interpolated s _ _ | _, .matching s _ _ | _, .arguments s _
  | _, .namedArgument s _ _ | _, .selectBraced s _ | _, .parameters s _ | _, .parameter s _ _ _
  | _, .method s _ _ _ | _, .declaration s _ _ | _, .block s _ | _, .colonBody s _ | _, .elseIf s _ _
  | _, .otherwise s _ | _, .switchCase s _ _ | _, .handler s _ _ | _, .cleanup s _ | _, .exprStmt s _
  | _, .ret s _ | _, .echo s _ | _, .branch s _ _ _ _ | _, .switch s _ _ | _, .tryCatch s _ _ _
  | _, .forEach s _ _ _ _ | _, .forLoop s _ _ _ _ | _, .whileLoop s _ _ | _, .doWhile s _ _
  | _, .global s _ | _, .static s _ | _, .function s _ _ _ | _, .classLike s _ _ | _, .namespaced s _
  | _, .other s _ _ => s
  | _, .nil | _, .cons _ _ | _, .none | _, .missing | _, .arm _ _ | _, .bareHook => default

/-- The ranges of the members of a sequence. -/
def spans : {c : Category} → Phrase c → List Span
  | _, .cons head tail => head.span :: tail.spans
  | _, _ => []

end Phrase

end PhpInspect.Php
