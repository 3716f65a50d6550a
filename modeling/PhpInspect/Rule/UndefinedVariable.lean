import PhpInspect.Rule.Basic
import PhpInspect.Text.Segments

/-! # Variables that are never defined

A function, a method or a closure is a frame with variables of its own. What a closure takes with `use` is read
in the frame around it, and `use (&$x)` defines `$x` there. In a frame the first appearance of a name counts: the
name is undefined unless it is a parameter, is taken with `use`, or is defined by that very appearance.
-/

namespace PhpInspect.UndefinedVariable

structure Settings where
  /-- The third argument of `preg_match` and `preg_match_all` is defined by the call. -/
  ignorePregMatch : Bool
  /-- The closures of a frame are looked at as well. -/
  analyzeClosures : Bool
deriving Repr, DecidableEq

/-! ### Frames -/

/-- The nearest frame among some ancestors. The frame of a `use` clause is left out, since its names belong
to the frame around it. -/
def nearestFrame (t : Tree) (inUse : Bool) : List Nat → Option Nat
  | [] => none
  | a :: rest =>
    if t.kind a == .closureUse then nearestFrame t true rest
    else if (t.kind a).isCallable then
      if inUse then nearestFrame t false rest else some a
    else nearestFrame t inUse rest

def owningScope (t : Tree) (i : Nat) : Option Nat := nearestFrame t false (t.ancestors i)

def ownedClosures (t : Tree) (owner : Nat) : List Nat :=
  (t.descendantsOfKind owner .closure).filter fun c => owningScope t c == some owner

/-- A frame and, if wanted, the frames inside of it, each before its own. A frame inside another has a greater
number, so that no chain of frames is longer than the tree. -/
def framesWithin (t : Tree) (nested : Bool) : Nat → Nat → List Nat
  | 0, _ => []
  | depth + 1, owner =>
    owner :: if nested then (ownedClosures t owner).flatMap (framesWithin t nested depth) else []

def frames (t : Tree) (nested : Bool) (owner : Nat) : List Nat := framesWithin t nested t.size owner

/-! ### Names of a frame -/

def locals (t : Tree) (owner : Nat) : List Nat :=
  (t.descendantsOfKind owner .var).filter fun v => t.isLocalVariable v && owningScope t v == some owner

/-- The first node of every image that is not among those seen. -/
def firstOfImage (t : Tree) (seen : List String) : List Nat → List Nat
  | [] => []
  | v :: vs =>
    if seen.contains (t.image v) then firstOfImage t seen vs
    else v :: firstOfImage t (t.image v :: seen) vs

def parameterNames (t : Tree) (owner : Nat) : Except RuleError (List String) := do
  let list ← t.requireChild owner .formalParameters
  return (t.descendantsOfKind list .variableDeclarator).map t.image

def capturedNames (t : Tree) (owner : Nat) : List String :=
  if t.kind owner == .closure then
    match t.firstChildOfKind owner .closureUse with
    | some uses => (t.descendantsOfKind uses .var).map t.image
    | none => []
  else []

/-! ### Definitions -/

/-- Whether the base of an index is written through it, as in `$a[1][2] = 3`. -/
def isElementWriteWithin (t : Tree) : Nat → Nat → Except RuleError Bool
  | 0, _ => return false
  | steps + 1, index => do
    let p ← t.parentOf index
    match t.kind p with
    | .arrayIndexExpression => if t.isFirstChild index then isElementWriteWithin t steps p else return false
    | .assignmentExpression => return t.isFirstChild index
    | .listExpression => return true
    | _ => return false

def isElementWrite (t : Tree) (index : Nat) : Except RuleError Bool := isElementWriteWithin t t.size index

def isDefinition (t : Tree) (v : Nat) : Except RuleError Bool := do
  let p ← t.parentOf v
  match t.kind p with
  | .assignmentExpression => return t.isFirstChild v
  -- The first child is what is iterated over.
  | .foreachStatement => return !t.isFirstChild v
  | .catchStatement | .listExpression | .globalStatement | .staticStatement => return true
  -- A reference in `foreach` or in a `use` clause; any other operator reads.
  | .unaryExpression =>
    match t.parent p with
    | some above =>
      if t.kind above == .foreachStatement then return !t.isFirstChild p
      else return t.kind above == .closureUse
    | none => return false
  | .arrayIndexExpression => if t.isFirstChild v then isElementWrite t p else return false
  | _ => return false

def pregFunctions : List String := ["preg_match", "preg_match_all"]

def baseName (name : String) : String :=
  String.ofList ((Text.segments '\\' name.toList).getLast?.getD [])

def isPregMatchOutput (t : Tree) (v : Nat) : Except RuleError Bool := do
  let arguments ← t.parentOf v
  if t.kind arguments != .arguments then return false
  let call ← t.parentOf arguments
  if t.kind call != .functionPostfix then return false
  if !pregFunctions.contains (baseName (t.image call)).toLower then return false
  return 3 ≤ (t.children arguments).length && t.child? arguments 2 == some v

/-! ### The rule -/

/-- The undefined variables of one frame, each at its first appearance. -/
def undefinedIn (t : Tree) (settings : Settings) (owner : Nat) : Except RuleError (List Nat) := do
  let parameters ← parameterNames t owner
  let bound := parameters ++ capturedNames t owner
  let unbound := (firstOfImage t [] (locals t owner)).filter fun v => !bound.contains (t.image v)
  let undefined ← unbound.filterM fun v => do return !(← isDefinition t v)
  if settings.ignorePregMatch then undefined.filterM fun v => do return !(← isPregMatchOutput t v)
  else return undefined

def report (t : Tree) (settings : Settings) (unit : Nat) : Except RuleError (List Violation) := do
  let found ← (frames t settings.analyzeClosures unit).mapM (undefinedIn t settings)
  return found.flatten.map (Rule.undefinedVariable.violationAt t)

end PhpInspect.UndefinedVariable
