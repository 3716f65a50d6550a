import PhpInspect.Php.Phrase
import PhpInspect.Source.Basic
import PhpInspect.Tree.Basic

/-! # Analysis trees of programs

The analysis tree of a program is built node by node: a phrase is lowered below a node that is already there, and what
belongs to it is lowered below the node that it gets itself. Expressions that no rule looks into, such as arrow
functions, become leaves, so that the positions of their neighbours stay what they are. Parentheses and namespaces
leave no node behind.
-/

namespace PhpInspect.Php

inductive Role where
  | plain
  /-- The target of an assignment or of `foreach`: an array written there is a destructuring pattern. -/
  | target
  /-- The body of a function, method or closure. -/
  | callableBody
  /-- The body of a branch or loop, for which there is a node already: braces get none of their own. -/
  | body
  /-- An expression that makes up a statement: a `throw` gets no node but that of the statement. -/
  | statement
deriving Repr, DecidableEq

namespace Role

/-- The role of what a phrase consists of, as parentheses do of an expression: targets and bodies stay what they are. -/
def inner : Role → Role
  | .target => .target
  | .body => .body
  | _ => .plain

end Role

namespace Phrase

def isName : {c : Category} → Phrase c → Bool
  | _, .name _ => true
  | _, _ => false

def isThrow : {c : Category} → Phrase c → Bool
  | _, .throwing _ _ => true
  | _, _ => false

def isPresent : {c : Category} → Phrase c → Bool
  | _, .some _ => true
  | _, _ => false

end Phrase

namespace StringForm

def image : StringForm → String
  | .quoted => "\""
  | .document => "<<<"
  | .shell => "`"

end StringForm

abbrev Lowering := StateM Tree

namespace Lowering

/-- Adds a node below another and gives its number. -/
def pushLabel (label : Label) (parent : Nat) : Lowering Nat := fun t => (t.size, t.push label parent)

def pushLines (kind : Kind) (image : String) (lines : Nat × Nat) (parent : Nat) : Lowering Nat :=
  pushLabel { kind, image, beginLine := lines.1, endLine := lines.2 } parent

def push (source : Source) (kind : Kind) (image : String) (span : Span) (parent : Nat) : Lowering Nat :=
  pushLines kind image (source.lines.linesOf span) parent

def pushLeaf (source : Source) (kind : Kind) (image : String) (span : Span) (parent : Nat) : Lowering Unit :=
  discard (push source kind image span parent)

def pushVariable (source : Source) (span : Span) (parent : Nat) : Lowering Unit :=
  pushLeaf source .var (source.text span) span parent

def pushCapture (source : Source) (capture : Capture) (parent : Nat) : Lowering Unit :=
  if capture.byReference then do
    let owner ← push source .unaryExpression "&" capture.span parent
    pushVariable source capture.name owner
  else pushVariable source capture.name parent

def pushCaptures (source : Source) (captures : Option Captures) (parent : Nat) : Lowering Unit :=
  match captures with
  | none => pure ()
  | some clause => do
    let use ← push source .closureUse "use" clause.span parent
    clause.items.forM fun capture => pushCapture source capture use

def setAbstract (i : Nat) : Lowering Unit := modify fun t => t.setAbstract i

end Lowering

/-- The lines from the first to the last of some ranges, those of `outer` when there are none. -/
def sequenceLines (source : Source) (outer : Span) (spans : List Span) : Nat × Nat :=
  match spans.head?, spans.getLast? with
  | some first, some last => ((source.lines.linesOf first).1, (source.lines.linesOf last).2)
  | _, _ => source.lines.linesOf outer

open Lowering in
def Phrase.lower (source : Source) : {c : Category} → Role → Phrase c → Nat → Lowering Unit
  | _, _, .nil, _ | _, _, .none, _ | _, _, .missing, _ => pure ()
  | _, role, .cons head tail, parent => do
    head.lower source role parent
    tail.lower source role parent
  | _, role, .some value, parent => value.lower source role parent
  -- Variables.
  | _, _, .direct s, parent => pushVariable source s parent
  | _, _, .indirect s _, parent | _, _, .nested s _, parent => pushLeaf source .expression (source.text s) s parent
  -- Expressions.
  | _, _, .ofVar v, parent => v.lower source .plain parent
  | _, _, .name s, parent => pushLeaf source .expression (source.text s) s parent
  | _, _, .constant s, parent | _, _, .literal s, parent | _, _, .callable s _, parent | _, _, .arrow s _ _, parent
  | _, _, .matching s _ _, parent => pushLeaf source .expression "" s parent
  | _, role, .paren _ e, parent => e.lower source role.inner parent
  | _, _, .assign s target value, parent => do
    let image := source.between target.span.stop value.span.start
    let i ← push source .assignmentExpression image s parent
    target.lower source .target i
    value.lower source .plain i
  | _, _, .binary s left right, parent => do
    let i ← push source .expression (source.between left.span.stop right.span.start) s parent
    left.lower source .plain i
    right.lower source .plain i
  | _, _, .prefixed s _ e, parent => do
    let i ← push source .unaryExpression (source.between s.start e.span.start) s parent
    e.lower source .plain i
  | _, _, .postfixed s e, parent => do
    let i ← push source .unaryExpression (source.between e.span.stop s.stop) s parent
    e.lower source .plain i
  | _, _, .conditional s condition yes no, parent => do
    let i ← push source .expression "?" s parent
    condition.lower source .plain i
    yes.lower source .plain i
    no.lower source .plain i
  | _, _, .call s callee args, parent =>
    if callee.isName then do
      let i ← push source .functionPostfix (source.text callee.span) s parent
      args.lower source .plain i
    else do
      let i ← push source .functionPostfix "" s parent
      callee.lower source .plain i
      args.lower source .plain i
  | _, _, .methodCall s receiver sel args, parent => do
    let i ← push source .methodPostfix (source.text sel.span) s parent
    receiver.lower source .plain i
    args.lower source .plain i
  | _, _, .member s receiver sel, parent => do
    let i ← push source .propertyPostfix (source.text sel.span) s parent
    receiver.lower source .plain i
  | _, _, .index s base key, parent => do
    let i ← push source .arrayIndexExpression "[" s parent
    base.lower source .plain i
    key.lower source .plain i
  | _, _, .append s base, parent => do
    let i ← push source .arrayIndexExpression "[" s parent
    base.lower source .plain i
  | _, role, .array s elements, parent => do
    let i ← push source (if role = .target then .listExpression else .arrayExpression) "[" s parent
    elements.lower source role.inner i
  | _, _, .legacyArray s elements, parent => do
    let i ← push source .arrayExpression "array" s parent
    elements.lower source .plain i
  | _, _, .list s elements, parent => do
    let i ← push source .listExpression "list" s parent
    elements.lower source .target i
  | _, _, .closure s params captures body, parent => do
    let i ← push source .closure "function" s parent
    params.lower source .plain i
    pushCaptures source captures i
    body.lower source .callableBody i
  | _, _, .instantiate s className args, parent => do
    let i ← push source .allocationExpression "new" s parent
    className.lower source .plain i
    args.lower source .plain i
  | _, _, .anonymousClass s args members, parent => do
    let i ← push source .allocationExpression "new" s parent
    args.lower source .plain i
    let j ← push source .classLike "class@anonymous" s i
    members.lower source .plain j
  | _, _, .isset s values, parent => do
    let i ← push source .issetExpression "isset" s parent
    values.lower source .plain i
  | _, _, .keyword s word e, parent => do
    let i ← push source .expression word s parent
    e.lower source .plain i
  | _, role, .throwing s e, parent =>
    if role = .statement then e.lower source .plain parent
    else do
      let i ← push source .expression "throw" s parent
      e.lower source .plain i
  | _, _, .exit s word args, parent => do
    let i ← push source .expression word s parent
    args.lower source .plain i
  | _, _, .yieldValue s value, parent => do
    let i ← push source .expression "yield" s parent
    value.lower source .plain i
  | _, _, .yieldPair s key value, parent => do
    let i ← push source .expression "yield" s parent
    key.lower source .plain i
    value.lower source .plain i
  | _, _, .pipe s input target, parent => do
    let i ← push source .expression "|>" s parent
    input.lower source .plain i
    target.lower source .plain i
  | _, _, .interpolated s form parts, parent => do
    let i ← push source .expression form.image s parent
    parts.lower source .plain i
  -- Parts of expressions.
  | _, _, .arguments s items, parent => do
    let i ← push source .arguments "" s parent
    items.lower source .plain i
  | _, _, .positional e, parent | _, _, .spreadArgument e, parent => e.lower source .plain parent
  | _, _, .namedArgument s id e, parent => do
    let i ← push source .namedArgument (source.text id) s parent
    e.lower source .plain i
  | _, role, .pair key value, parent => do
    key.lower source .plain parent
    value.lower source role.inner parent
  | _, role, .single e, parent => e.lower source role.inner parent
  | _, _, .spreadElement e, parent => e.lower source .plain parent
  | _, _, .selectName _, _ | _, _, .selectVar _, _ | _, _, .selectBraced _ _, _ | _, _, .arm _ _, _ | _, _, .bareHook, _
  | _, _, .exprHook _, _ | _, _, .blockHook _, _ | _, _, .declaration _ _ _, _ => pure ()
  | _, _, .parameters s items, parent => do
    let i ← push source .formalParameters "" s parent
    items.lower source .plain i
  | _, _, .parameter s id _ _, parent => do
    let i ← push source .formalParameter "" s parent
    pushLeaf source .variableDeclarator (source.text id) id i
  | _, _, .method s id params body, parent => do
    let i ← push source .method (source.text id) s parent
    params.lower source .plain i
    if body.isPresent then body.lower source .callableBody i else setAbstract i
  -- Statements.
  | _, role, .block s statements, parent =>
    if role = .body then statements.lower source .plain parent
    else do
      let i ← push source (if role = .callableBody then .scope else .scopeStatement) "" s parent
      statements.lower source .plain i
  | _, _, .stmtBody statement, parent => do
    let i ← push source .scopeStatement "" statement.span parent
    statement.lower source .body i
  | _, _, .colonBody outer statements, parent => do
    let i ← pushLines .scopeStatement "" (sequenceLines source outer statements.spans) parent
    statements.lower source .plain i
  | _, _, .elseIf s condition body, parent => do
    let i ← push source .elseIfStatement "elseif" s parent
    condition.lower source .plain i
    body.lower source .plain i
  | _, _, .otherwise s body, parent => do
    let i ← push source .elseStatement "else" s parent
    body.lower source .plain i
  | _, _, .switchCase s condition statements, parent => do
    let lines := ((source.lines.linesOf s).1, (sequenceLines source s statements.spans).2)
    let i ← pushLines .switchLabel (if condition.isPresent then "case" else "default") lines parent
    condition.lower source .plain i
    statements.lower source .plain i
  | _, _, .handler s binder body, parent => do
    let i ← push source .catchStatement "catch" s parent
    binder.forM fun name => pushVariable source name i
    body.lower source .plain i
  | _, _, .cleanup s body, parent => do
    let i ← push source .finallyStatement "finally" s parent
    body.lower source .plain i
  | _, _, .staticItem id _, parent => pushVariable source id parent
  | _, _, .exprStmt s value, parent => do
    let i ← if value.isThrow then push source .throwStatement "throw" s parent else push source .statement "" s parent
    value.lower source .statement i
  | _, _, .ret s value, parent => do
    let i ← push source .returnStatement "return" s parent
    value.lower source .plain i
  | _, _, .echo s values, parent => do
    let i ← push source .echoStatement "echo" s parent
    values.lower source .plain i
  | _, role, .blockStmt body, parent => body.lower source role.inner parent
  | _, _, .branch s condition body elseIfs final, parent => do
    let i ← push source .ifStatement "if" s parent
    condition.lower source .plain i
    body.lower source .plain i
    elseIfs.lower source .plain i
    final.lower source .plain i
  | _, _, .switch s subject cases, parent => do
    let i ← push source .switchStatement "switch" s parent
    subject.lower source .plain i
    cases.lower source .plain i
  | _, _, .tryCatch s body handlers final, parent => do
    let i ← push source .tryStatement "try" s parent
    body.lower source .plain i
    handlers.lower source .plain i
    final.lower source .plain i
  | _, _, .forEach s subject key value body, parent => do
    let i ← push source .foreachStatement "foreach" s parent
    subject.lower source .plain i
    key.lower source .target i
    value.lower source .target i
    body.lower source .plain i
  | _, _, .forLoop s initial conditions increments body, parent => do
    let i ← push source .forStatement "for" s parent
    initial.lower source .plain i
    conditions.lower source .plain i
    increments.lower source .plain i
    body.lower source .plain i
  | _, _, .whileLoop s condition body, parent => do
    let i ← push source .whileStatement "while" s parent
    condition.lower source .plain i
    body.lower source .plain i
  | _, _, .doWhile s body condition, parent => do
    let i ← push source .doWhileStatement "do" s parent
    body.lower source .plain i
    condition.lower source .plain i
  | _, _, .global s names, parent => do
    let i ← push source .globalStatement "global" s parent
    names.lower source .plain i
  | _, _, .static s items, parent => do
    let i ← push source .staticStatement "static" s parent
    items.lower source .plain i
  | _, _, .function s id params body, parent => do
    let i ← push source .function (source.text id) s parent
    params.lower source .plain i
    body.lower source .callableBody i
  | _, _, .classLike s id members, parent => do
    let i ← push source .classLike (source.text id) s parent
    members.lower source .plain i
  | _, _, .namespaced _ statements, parent => statements.lower source .plain parent
  | _, _, .other s _ _, parent => pushLeaf source .statement "" s parent

def treeOf (source : Source) (statements : List Stmt) : Tree :=
  let lowering : Lowering Unit := statements.forM fun statement => statement.lower source .plain Tree.root
  (lowering.run (Tree.empty 1 source.lines.lineCount)).2

end PhpInspect.Php
