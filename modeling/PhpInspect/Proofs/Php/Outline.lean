import PhpInspect.Proofs.Php.Pieces
import PhpInspect.Proofs.Tree.Graft

/-! # Outlines of phrases

The outlines of a phrase are those of its pieces, below the node of the phrase if it has one. Lowering a phrase below a
node grafts its outlines there: all of its nodes are added one after the other, those of a part before those of the
part behind it.
-/

namespace PhpInspect

namespace Tree

variable {t : Tree} {i p : Nat} {label : Label}

theorem graftAll_append (t : Tree) (p : Nat) (os os' : List Outline) :
    t.graftAll p (os ++ os') = (t.graftAll p os).graftAll p os' := by
  induction os generalizing t with
  | nil => rfl
  | cons o os ih => exact ih (t.graft p o)

/-! ### Marking a method that has just been added -/

theorem setAbstract_push (h : i < t.size) (label : Label) (p : Nat) :
    (t.push label p).setAbstract i = (t.setAbstract i).push label p := by
  have hi : i ≠ t.nodes.size := Nat.ne_of_lt h
  apply congrArg Tree.mk
  apply Array.ext_getElem?
  intro j
  simp only [setAbstract, push, size, Array.getElem?_modify, Array.getElem?_push, Array.size_modify]
  by_cases hj : j = t.nodes.size
  · simp [hj, hi]
  · by_cases hij : i = j <;> by_cases hpj : p = j <;> cases t.nodes[j]? <;> simp [hj, hij, hpj]

theorem setAbstract_push_self (t : Tree) (label : Label) (p : Nat) :
    (t.push label p).setAbstract t.size = t.push { label with isAbstract := true } p := by
  apply congrArg Tree.mk
  apply Array.ext_getElem?
  intro j
  simp only [push, size, Array.getElem?_modify, Array.getElem?_push, Array.size_modify]
  by_cases hj : j = t.nodes.size
  · simp [hj]
  · simp [hj, Ne.symm hj]

mutual

theorem setAbstract_graft : ∀ (o : Outline) {t : Tree} {p : Nat}, i < t.size →
    (t.graft p o).setAbstract i = (t.setAbstract i).graft p o
  | .node label children, t, _, h => by
    rw [graft, graft, setAbstract_graftAll children (by rw [size_push]; omega), setAbstract_push h, size_setAbstract]

theorem setAbstract_graftAll : ∀ (os : List Outline) {t : Tree} {p : Nat}, i < t.size →
    (t.graftAll p os).setAbstract i = (t.setAbstract i).graftAll p os
  | [], _, _, _ => rfl
  | o :: os, t, _, h => by
    rw [graftAll, graftAll, setAbstract_graftAll os (by rw [size_graft]; omega), setAbstract_graft o h]

end

end Tree

namespace Php

/-! ### Labels -/

namespace Outlining

/-- The label of a node on the lines of a range. -/
def labelOn (source : Source) (kind : Kind) (image : String) (span : Span) : Label :=
  { kind, image, beginLine := (source.lines.linesOf span).1, endLine := (source.lines.linesOf span).2 }

def spanning (source : Source) (kind : Kind) (image : String) (span : Span) (children : List Outline) : Outline :=
  .node (labelOn source kind image span) children

def variableNode (source : Source) (name : Span) : Outline := spanning source .var (source.text name) name []

/-- The node for the name of a parameter. -/
def declaratorNode (source : Source) (name : Span) : Outline :=
  spanning source .variableDeclarator (source.text name) name []

def captureNode (source : Source) (capture : Capture) : Outline :=
  if capture.byReference then spanning source .unaryExpression "&" capture.span [variableNode source capture.name]
  else variableNode source capture.name

/-- Outlines below a node, if there is one. -/
def below : Option Label → List Outline → List Outline
  | none, os => os
  | some label, os => [.node label os]

end Outlining

open Outlining

/-- The label of the node that a phrase has of its own. -/
def Phrase.label? (source : Source) (role : Role) : {c : Category} → Phrase c → Option Label
  -- Expressions.
  | _, .indirect s _ | _, .nested s _ | _, .name s => .some (labelOn source .expression (source.text s) s)
  | _, .constant s | _, .literal s | _, .callable s _ | _, .arrow s _ _ | _, .matching s _ _ =>
    .some (labelOn source .expression "" s)
  | _, .assign s target value =>
    .some (labelOn source .assignmentExpression (source.between target.span.stop value.span.start) s)
  | _, .binary s left right => .some (labelOn source .expression (source.between left.span.stop right.span.start) s)
  | _, .prefixed s _ e => .some (labelOn source .unaryExpression (source.between s.start e.span.start) s)
  | _, .postfixed s e => .some (labelOn source .unaryExpression (source.between e.span.stop s.stop) s)
  | _, .conditional s _ _ _ => .some (labelOn source .expression "?" s)
  | _, .call s callee _ =>
    .some (labelOn source .functionPostfix (if callee.isName then source.text callee.span else "") s)
  | _, .methodCall s _ sel _ => .some (labelOn source .methodPostfix (source.text sel.span) s)
  | _, .member s _ sel => .some (labelOn source .propertyPostfix (source.text sel.span) s)
  | _, .index s _ _ | _, .append s _ => .some (labelOn source .arrayIndexExpression "[" s)
  | _, .array s _ => .some (labelOn source (if role = .target then .listExpression else .arrayExpression) "[" s)
  | _, .legacyArray s _ => .some (labelOn source .arrayExpression "array" s)
  | _, .list s _ => .some (labelOn source .listExpression "list" s)
  | _, .closure s _ _ _ => .some (labelOn source .closure "function" s)
  | _, .instantiate s _ _ | _, .anonymousClass s _ _ => .some (labelOn source .allocationExpression "new" s)
  | _, .isset s _ => .some (labelOn source .issetExpression "isset" s)
  | _, .keyword s word _ | _, .exit s word _ => .some (labelOn source .expression word s)
  | _, .throwing s _ => if role = .statement then .none else .some (labelOn source .expression "throw" s)
  | _, .yieldValue s _ | _, .yieldPair s _ _ => .some (labelOn source .expression "yield" s)
  | _, .pipe s _ _ => .some (labelOn source .expression "|>" s)
  | _, .interpolated s form _ => .some (labelOn source .expression form.image s)
  -- Parts of expressions.
  | _, .arguments s _ => .some (labelOn source .arguments "" s)
  | _, .namedArgument s id _ => .some (labelOn source .namedArgument (source.text id) s)
  | _, .parameters s _ => .some (labelOn source .formalParameters "" s)
  | _, .parameter s _ _ _ => .some (labelOn source .formalParameter "" s)
  | _, .method s id _ body =>
    .some { labelOn source .method (source.text id) s with isAbstract := !body.isPresent }
  -- Statements.
  | _, .block s _ =>
    if role = .body then .none
    else .some (labelOn source (if role = .callableBody then .scope else .scopeStatement) "" s)
  | _, .stmtBody statement => .some (labelOn source .scopeStatement "" statement.span)
  | _, .colonBody outer statements =>
    let lines := sequenceLines source outer statements.spans
    .some { kind := .scopeStatement, image := "", beginLine := lines.1, endLine := lines.2 }
  | _, .elseIf s _ _ => .some (labelOn source .elseIfStatement "elseif" s)
  | _, .otherwise s _ => .some (labelOn source .elseStatement "else" s)
  | _, .switchCase s condition statements =>
    let image := if condition.isPresent then "case" else "default"
    let endLine := (sequenceLines source s statements.spans).2
    .some { kind := .switchLabel, image, beginLine := (source.lines.linesOf s).1, endLine }
  | _, .handler s _ _ => .some (labelOn source .catchStatement "catch" s)
  | _, .cleanup s _ => .some (labelOn source .finallyStatement "finally" s)
  | _, .exprStmt s value =>
    .some (if value.isThrow then labelOn source .throwStatement "throw" s else labelOn source .statement "" s)
  | _, .ret s _ => .some (labelOn source .returnStatement "return" s)
  | _, .echo s _ => .some (labelOn source .echoStatement "echo" s)
  | _, .branch s _ _ _ _ => .some (labelOn source .ifStatement "if" s)
  | _, .switch s _ _ => .some (labelOn source .switchStatement "switch" s)
  | _, .tryCatch s _ _ _ => .some (labelOn source .tryStatement "try" s)
  | _, .forEach s _ _ _ _ => .some (labelOn source .foreachStatement "foreach" s)
  | _, .forLoop s _ _ _ _ => .some (labelOn source .forStatement "for" s)
  | _, .whileLoop s _ _ => .some (labelOn source .whileStatement "while" s)
  | _, .doWhile s _ _ => .some (labelOn source .doWhileStatement "do" s)
  | _, .global s _ => .some (labelOn source .globalStatement "global" s)
  | _, .static s _ => .some (labelOn source .staticStatement "static" s)
  | _, .function s id _ _ => .some (labelOn source .function (source.text id) s)
  | _, .classLike s id _ => .some (labelOn source .classLike (source.text id) s)
  | _, .other s _ _ => .some (labelOn source .statement "" s)
  | _, _ => .none

/-! ### Outlines -/

namespace Piece

/-- The outlines of a piece of a phrase in some role. -/
def outlines (source : Source) (role : Role) : Piece (Role → List Outline) → List Outline
  | .shown passing part => part (passing.role role)
  | .classed span members => [spanning source .classLike "class@anonymous" span (members .plain)]
  | .hidden _ => []
  | .var name => [variableNode source name]
  | .param name => [declaratorNode source name]
  | .captures clause =>
    [spanning source .closureUse "use" clause.span (clause.items.map (captureNode source))]

end Piece

variable {c : Category}

/-- The outlines of a phrase in some role. An expression or a statement other than a namespace has exactly one. -/
def Phrase.outline (source : Source) (role : Role) (p : Phrase c) : List Outline :=
  p.fold (fun x pieces role =>
    below (x.2.label? source role) (pieces.flatMap fun piece => (piece.map Prod.snd).outlines source role)) role

def Piece.outlined (source : Source) (role : Role) (piece : Piece AnyPhrase) : List Outline :=
  (piece.map fun q role => q.2.outline source role).outlines source role

/-- The outlines of the pieces of a phrase. -/
def Phrase.inside (source : Source) (role : Role) (p : Phrase c) : List Outline :=
  p.pieces.flatMap (Piece.outlined source role)

theorem Phrase.outline_eq (source : Source) (role : Role) (p : Phrase c) :
    p.outline source role = below (p.label? source role) (p.inside source role) := by
  rw [outline, fold_eq, inside]
  simp only [List.flatMap_map, Piece.map_map]
  rfl

namespace Phrase

variable {source : Source} {role : Role}

theorem outline_cons (head : Phrase c) (tail : Phrase (.list c)) :
    (head.cons tail).outline source role = head.outline source role ++ tail.outline source role :=
  congrArg (head.outline source role ++ ·) (List.append_nil _)

theorem outline_some (value : Phrase c) : (Phrase.some value).outline source role = value.outline source role :=
  List.append_nil _

theorem outline_ofList (ps : List (Phrase c)) :
    (ofList ps).outline source role = ps.flatMap fun p => p.outline source role := by
  induction ps with
  | nil => rfl
  | cons p ps ih => rw [ofList, outline_cons, ih, List.flatMap_cons]

end Phrase

/-! ### Lowering -/

open Lowering

/-- A computation grafts outlines onto the tree, below whatever node it is told to. -/
def Grafts (m : Nat → Lowering Unit) (os : List Outline) : Prop :=
  ∀ parent t, (m parent).run t = ((), t.graftAll parent os)

namespace Grafts

variable {m m' : Nat → Lowering Unit} {os os' cs : List Outline} {label : Label}

theorem nil : Grafts (fun _ => pure ()) [] := fun _ _ => rfl

theorem last (h : Grafts m os) : Grafts m (os ++ []) := by rwa [List.append_nil]

theorem seq (h : Grafts m os) (h' : Grafts m' os') : Grafts (fun parent => do m parent; m' parent) (os ++ os') := by
  intro parent t
  rw [StateT.run_bind, h, Tree.graftAll_append]
  exact h' parent _

theorem node (h : Grafts m cs) :
    Grafts (fun parent => do let i ← pushLabel label parent; m i) [.node label cs] :=
  fun parent t => h t.size (t.push label parent)

theorem leaf (source : Source) (kind : Kind) (image : String) (span : Span) :
    Grafts (pushLeaf source kind image span) [spanning source kind image span []] := fun _ _ => rfl

theorem capture (source : Source) (capture : Capture) :
    Grafts (pushCapture source capture) [captureNode source capture] := by
  have hname : Grafts (pushVariable source capture.name) [variableNode source capture.name] := leaf _ _ _ _
  unfold pushCapture captureNode
  split
  · exact hname.node
  · exact hname

theorem captures (source : Source) (clause : Captures) : Grafts (pushCaptures source (some clause))
    [spanning source .closureUse "use" clause.span (clause.items.map (captureNode source))] := by
  refine node (m := fun i => clause.items.forM fun capture => pushCapture source capture i) ?_
  induction clause.items with
  | nil => exact nil
  | cons item items ih => exact (capture source item).seq ih

/-- A method without a body is marked when its parameters are there. -/
theorem abstract (h : Grafts m cs) : Grafts (fun parent => do
    let i ← pushLabel label parent
    m i
    setAbstract i) [.node { label with isAbstract := true } cs] := by
  intro parent t
  have hsize : t.size < (t.push label parent).size := by
    rw [Tree.size_push]
    exact Nat.lt_succ_self _
  change ((do m t.size; setAbstract t.size : Lowering Unit).run (t.push label parent)) = _
  rw [StateT.run_bind, h]
  change ((), ((t.push label parent).graftAll t.size cs).setAbstract t.size) = _
  rw [Tree.setAbstract_graftAll cs hsize, Tree.setAbstract_push_self]
  rfl

end Grafts

/-- Lowering a phrase grafts its outlines. -/
theorem Phrase.grafts (source : Source) : ∀ {c : Category} (p : Phrase c) (role : Role),
    Grafts (p.lower source role) (p.outline source role)
  | _, .nil, _ | _, .none, _ | _, .missing, _ | _, .selectName _, _ | _, .selectVar _, _ | _, .selectBraced _ _, _
  | _, .arm _ _, _ | _, .bareHook, _ | _, .exprHook _, _ | _, .blockHook _, _ | _, .declaration _ _ _, _ => .nil
  | _, .cons p q, role => (p.grafts source role).seq (q.grafts source role).last
  | _, .some p, role => (p.grafts source role).last
  -- Leaves.
  | _, .direct _, _ | _, .staticItem _ _, _ | _, .indirect _ _, _ | _, .nested _ _, _ | _, .name _, _
  | _, .constant _, _ | _, .literal _, _ | _, .callable _ _, _ | _, .arrow _ _ _, _ | _, .matching _ _ _, _
  | _, .other _ _ _, _ => .leaf _ _ _ _
  | _, .parameter _ _ _ _, _ => (Grafts.leaf _ _ _ _).node
  -- Phrases without a node.
  | _, .ofVar p, _ | _, .positional p, _ | _, .spreadArgument p, _ | _, .spreadElement p, _ | _, .namespaced _ p, _ =>
    (p.grafts source .plain).last
  | _, .paren _ p, role | _, .single p, role | _, .blockStmt p, role => (p.grafts source role.inner).last
  | _, .pair p q, role => (p.grafts source .plain).seq (q.grafts source role.inner).last
  -- Phrases with a node.
  | _, .prefixed _ _ p, _ | _, .postfixed _ p, _ | _, .append _ p, _ | _, .legacyArray _ p, _ | _, .isset _ p, _
  | _, .keyword _ _ p, _ | _, .exit _ _ p, _ | _, .yieldValue _ p, _ | _, .interpolated _ _ p, _ | _, .arguments _ p, _
  | _, .namedArgument _ _ p, _ | _, .parameters _ p, _ | _, .colonBody _ p, _ | _, .otherwise _ p, _
  | _, .cleanup _ p, _ | _, .ret _ p, _ | _, .echo _ p, _ | _, .global _ p, _ | _, .static _ p, _
  | _, .classLike _ _ p, _ | _, .member _ p _, _ => (p.grafts source .plain).last.node
  | _, .binary _ p q, _ | _, .index _ p q, _ | _, .instantiate _ p q, _ | _, .yieldPair _ p q, _ | _, .pipe _ p q, _
  | _, .elseIf _ p q, _ | _, .switchCase _ p q, _ | _, .switch _ p q, _ | _, .whileLoop _ p q, _ | _, .doWhile _ p q, _
  | _, .methodCall _ p _ q, _ => ((p.grafts source .plain).seq (q.grafts source .plain).last).node
  | _, .conditional _ p q r, _ | _, .tryCatch _ p q r, _ =>
    ((p.grafts source .plain).seq ((q.grafts source .plain).seq (r.grafts source .plain).last)).node
  | _, .branch _ p q r s, _ | _, .forLoop _ p q r s, _ =>
    ((p.grafts source .plain).seq
      ((q.grafts source .plain).seq ((r.grafts source .plain).seq (s.grafts source .plain).last))).node
  | _, .array _ p, role => (p.grafts source role.inner).last.node
  | _, .list _ p, _ => (p.grafts source .target).last.node
  | _, .stmtBody p, _ => (p.grafts source .body).last.node
  | _, .assign _ p q, _ => ((p.grafts source .target).seq (q.grafts source .plain).last).node
  | _, .forEach _ p q r s, _ =>
    ((p.grafts source .plain).seq
      ((q.grafts source .target).seq ((r.grafts source .target).seq (s.grafts source .plain).last))).node
  | _, .function _ _ p q, _ => ((p.grafts source .plain).seq (q.grafts source .callableBody).last).node
  | _, .anonymousClass _ p q, _ =>
    ((p.grafts source .plain).seq (q.grafts source .plain).node.last).node
  | _, .method _ _ p .none, _ => (p.grafts source .plain).last.abstract
  | _, .method _ _ p (.some q), _ => ((p.grafts source .plain).seq (q.grafts source .callableBody).last.last).node
  | _, .closure _ p Option.none q, _ => ((p.grafts source .plain).seq (q.grafts source .callableBody).last).node
  | _, .closure _ p (Option.some clause) q, _ =>
    ((p.grafts source .plain).seq ((Grafts.captures source clause).seq (q.grafts source .callableBody).last)).node
  | _, .handler _ Option.none p, _ => (p.grafts source .plain).last.node
  | _, .handler _ (Option.some _) p, _ => ((Grafts.leaf _ _ _ _).seq (p.grafts source .plain).last).node
  -- Nodes that depend on the role or on a part.
  | _, .throwing _ p, role => by
    have hp := p.grafts source .plain
    cases role with
    | statement => exact hp.last
    | _ => exact hp.last.node
  | _, .block _ p, role => by
    have hp := p.grafts source .plain
    cases role with
    | body => exact hp.last
    | _ => exact hp.last.node
  | _, .exprStmt _ p, _ => by
    have hp := p.grafts source .statement
    cases p <;> exact hp.last.node
  | _, .call _ p q, _ => by
    have hp := p.grafts source .plain
    have hq := q.grafts source .plain
    cases p with
    | name => exact hq.last.node
    | _ => exact (hp.seq hq.last).node

end Php

end PhpInspect
