import PhpInspect.Php.Parse.Member
import PhpInspect.Php.Parse.Operator

/-! # Expressions

An expression is an operand followed by whatever binds at least as tightly as the expression has to.
-/

namespace PhpInspect.Php.Grammar

open Parse

/-! ### Variables and selectors -/

/-- A variable, named through others at most `depth` times. -/
def variableWithin (g : Grammar) : Nat → Parse (Phrase .var)
  | 0 => unexpected
  | depth + 1 => do
    let t ← expectOneOf [.varName, .dollarLeftBrace, .dollar]
    match t.kind with
    | .varName => return .direct t.span
    | .dollarLeftBrace =>
      let e ← g.value
      let _ ← expect .rightBrace
      return .indirect (← spanFrom t.span.start) e
    | _ =>
      let inner ← g.variableWithin depth
      return .nested (← spanFrom t.span.start) inner

def var (g : Grammar) : Parse (Phrase .var) := do g.variableWithin ((← get).left + 1)

def selector (g : Grammar) : Parse (Phrase .selector) := do
  let t ← peek
  match t.kind with
  | .varName | .dollarLeftBrace | .dollar => return .selectVar (← g.var)
  | .leftBrace =>
    let _ ← next
    let e ← g.value
    let _ ← expect .rightBrace
    return .selectBraced (← spanFrom t.span.start) e
  | _ =>
    if t.kind.isWord then
      let _ ← next
      return .selectName t.span
    else throw (.expected [.varName, .dollarLeftBrace, .dollar, .leftBrace, .identifier] t.kind)

/-! ### Arrays and strings -/

def element (g : Grammar) : Parse (Phrase .element) := do
  match (← peek).kind with
  | .comma => return .missing
  | .dotDotDot =>
    let _ ← next
    return .spreadElement (← g.value)
  | _ =>
    let e ← g.value
    if ← skip? .equalGreaterThan then return .pair e (← g.value) else return .single e

def elements (g : Grammar) (close : TokenKind) : Parse (Phrase (.list .element)) := do
  return .ofList (← commaListTo close g.element)

/-- The index of a variable inside a string is a key without quotes if it is nothing but a name. -/
def withBareKey : Expr → Expr
  | .index s base (.constant key) => .index s base (.name key)
  | e => e

/-- A variable inside a string without braces around it, with its index or property. -/
def simplePart (g : Grammar) : Parse Expr := do
  let outer := (← get).inString
  modify fun c => { c with inString := true }
  let e ← g.value
  modify fun c => { c with inString := outer }
  return withBareKey e

/-- A piece of a string: text, of which nothing is kept, or an expression. -/
def stringPart (g : Grammar) : Parse (Option Expr) := do
  match (← peek).kind with
  | .stringPart =>
    let _ ← next
    return none
  | .leftBrace =>
    let _ ← next
    let e ← g.value
    let _ ← expect .rightBrace
    return some e
  | _ => return some (← g.simplePart)

def stringParts (g : Grammar) (close : TokenKind) : Parse (Phrase (.list .expr)) := do
  let parts ← untilOneOf [close] g.stringPart
  let _ ← expect close
  return .ofList (parts.filterMap id)

/-! ### Functions and classes in expressions -/

/-- The closure or arrow function whose attributes or `static`, if any, begin at `start`. -/
def closure (g : Grammar) (start : Nat) : Parse Expr := do
  let _ ← skip? .kwStatic
  if ← skip? .kwFn then
    let _ ← skip? .ampersand
    let params ← g.parameters
    returnType
    let _ ← expect .equalGreaterThan
    let body ← g.value
    return .arrow ⟨start, body.span.stop⟩ params body
  let _ ← expect .kwFunction
  let _ ← skip? .ampersand
  let params ← g.parameters
  let uses ← captures
  returnType
  let body ← g.block
  return .closure (← spanFrom start) params uses body

def closureBegins : Parse Bool := do
  match (← peek).kind with
  | .kwFunction | .kwFn => return true
  | .kwStatic => return (← kindAt? 1).any [.kwFunction, .kwFn].contains
  | _ => return false

/-- Attributes in an expression stand before a closure or an arrow function. -/
def attributedClosure (g : Grammar) : Parse Expr := do
  let start := (← peek).span.start
  g.attributes
  if ← closureBegins then g.closure start
  else throw (.expected [.kwFunction, .kwFn, .kwStatic] (← peek).kind)

def anonymousClassFollows : Parse Bool := do
  match ← kind? with
  | some .kwClass | some .hashLeftBracket => return true
  | some k => return modifierKinds.contains k && k != .kwStatic
  | none => return false

def instantiation (g : Grammar) : Parse Expr := do
  let t ← expect .kwNew
  if ← anonymousClassFollows then
    g.attributes
    modifiers
    let _ ← expect .kwClass
    let args ← g.optionalArguments
    ancestry
    let items ← g.members
    return .anonymousClass (← spanFrom t.span.start) args (.ofList items)
  let className ← g.operand .new
  if ← at? .leftParenthesis then
    let args ← g.arguments
    return .instantiate (t.span.join args.span) className (.some args)
  return .instantiate (t.span.join className.span) className .none

def arm (g : Grammar) : Parse (Phrase .arm) := do
  let conditions ← if ← skip? .kwDefault then pure [] else commaList [.equalGreaterThan] g.value
  let _ ← expect .equalGreaterThan
  return .arm (.ofList conditions) (← g.value)

def matching (g : Grammar) : Parse Expr := do
  let start := (← expect .kwMatch).span.start
  let subject ← g.inParens
  let _ ← expect .leftBrace
  let arms ← commaListTo .rightBrace g.arm
  return .matching (← spanFrom start) subject (.ofList arms)

/-! ### Words -/

def worded (g : Grammar) (word : String) (level : Level) : Parse Expr := do
  let t ← next
  let e ← g.operand level
  return .keyword (t.span.join e.span) word e

def wordedInParens (g : Grammar) (word : String) : Parse Expr := do
  let start := (← next).span.start
  let e ← g.inParens
  return .keyword (← spanFrom start) word e

def yielding (g : Grammar) : Parse Expr := do
  let t ← expect .kwYield
  match (← peek).kind with
  | .semicolon | .closeTag => return .yieldValue t.span .none
  | .kwFrom =>
    let _ ← next
    let e ← g.operand .yieldFrom
    return .keyword (t.span.join e.span) "yield from" e
  | _ =>
    let e ← g.operand .yieldValue
    if ← skip? .equalGreaterThan then
      let v ← g.operand .yieldValue
      return .yieldPair (t.span.join v.span) e v
    return .yieldValue (t.span.join e.span) (.some e)

def exiting (g : Grammar) (word : String) : Parse Expr := do
  let start := (← next).span.start
  let args ← g.optionalArguments
  return .exit (← spanFrom start) word args

/-- `clone` is an operator, and a function when its parentheses hold anything but one value. -/
def cloning (g : Grammar) : Parse Expr := do
  let t ← expect .kwClone
  if !(← at? .leftParenthesis) then
    let e ← g.operand .clone
    return .keyword (t.span.join e.span) "clone" e
  let (s, held) ← g.callList
  let span := t.span.join s
  match held with
  | none => return .callable span (.name t.span)
  | some [.positional e] | some [.namedArgument _ _ e] => return .keyword span "clone" e
  | some items => return .call span (.name t.span) (.arguments s (.ofList items))

/-! ### Operands -/

/-- Whether a word is a name in an operand of level `current`, given the token behind it. Some keywords are names
unless they begin a construct there, others only where a function or a class is due. -/
def isNameBefore (current : Level) (following : Option TokenKind) : TokenKind → Bool
  | .identifier | .qualifiedIdentifier | .fullyQualifiedIdentifier | .kwEnum | .kwFrom | .kwReadonly => true
  | .kwTrue | .kwFalse | .kwNull => following.any fun k => k.postfixLevel?.any (current.rank ≤ ·.rank)
  | .kwSelf | .kwParent => following == some .leftParenthesis && current != .new
  | .kwList | .kwMatch => following != some .leftParenthesis
  | _ => false

/-- The operand of a keyword or symbol that begins one, `none` if there is none. -/
def construct? (g : Grammar) (t : Token) (following : Option TokenKind) : Option (Parse Expr) :=
  match t.kind, following with
  | .kwStatic, some .kwFunction | .kwStatic, some .kwFn | .kwFunction, _ | .kwFn, _ =>
    some (g.closure t.span.start)
  | .kwArray, some .leftParenthesis => some do
    let _ ← next
    let _ ← next
    let items ← g.elements .rightParenthesis
    return .legacyArray (← spanFrom t.span.start) items
  | .varName, _ | .dollar, _ | .dollarLeftBrace, _ => some do return .ofVar (← g.var)
  | .literalInteger, _ | .literalFloat, _ | .literalString, _ | .kwTrue, _ | .kwFalse, _ | .kwNull, _
  | .kwSelf, _ | .kwParent, _ | .kwStatic, _ | .kwClassConstant, _ | .kwTraitConstant, _
  | .kwFunctionConstant, _ | .kwMethodConstant, _ | .kwLineConstant, _ | .kwFileConstant, _
  | .kwPropertyConstant, _ | .kwDirConstant, _ | .kwNamespaceConstant, _ => some do
    let _ ← next
    return .literal t.span
  | .partialLiteralString, _ => some (throw (.unclosedString (t.text.startsWith "\"")))
  | .hashLeftBracket, _ => some g.attributedClosure
  | .leftParenthesis, _ => some do
    let e ← g.inParens
    return .paren (← spanFrom t.span.start) e
  | .leftBracket, _ => some do
    let _ ← next
    let items ← g.elements .rightBracket
    return .array (← spanFrom t.span.start) items
  | .kwList, _ => some do
    let _ ← next
    let _ ← next
    let items ← g.elements .rightParenthesis
    return .list (← spanFrom t.span.start) items
  | .doubleQuote, _ => some do
    let _ ← next
    let parts ← g.stringParts .doubleQuote
    return .interpolated (← spanFrom t.span.start) .quoted parts
  | .backtick, _ => some do
    let _ ← next
    let parts ← g.stringParts .backtick
    return .interpolated (← spanFrom t.span.start) .shell parts
  | .documentStart _, _ => some do
    let _ ← next
    let parts ← g.stringParts .documentEnd
    return .interpolated t.span .document parts
  | .kwNew, _ => some g.instantiation
  | .kwMatch, _ => some g.matching
  | .kwClone, _ => some g.cloning
  | .kwPrint, _ => some (g.worded "print" .print)
  | .kwInclude, _ => some (g.worded "include" .lowest)
  | .kwIncludeOnce, _ => some (g.worded "include_once" .lowest)
  | .kwRequire, _ => some (g.worded "require" .lowest)
  | .kwRequireOnce, _ => some (g.worded "require_once" .lowest)
  | .kwEmpty, _ => some (g.wordedInParens "empty")
  | .kwEval, _ => some (g.wordedInParens "eval")
  | .kwIsset, _ => some do
    let _ ← next
    let _ ← expect .leftParenthesis
    let values ← commaListTo .rightParenthesis g.value
    return .isset (← spanFrom t.span.start) (.ofList values)
  | .kwUnset, _ => some (throw (.expected
    [.kwIsset, .kwEmpty, .kwEval, .kwInclude, .kwIncludeOnce, .kwRequire, .kwRequireOnce, .kwPrint, .kwExit, .kwDie]
    .kwUnset))
  | .kwExit, _ => some (g.exiting "exit")
  | .kwDie, _ => some (g.exiting "die")
  | .kwThrow, _ => some do
    let _ ← next
    let e ← g.value
    return .throwing (t.span.join e.span) e
  | .kwYield, _ => some g.yielding
  | k, _ =>
    k.prefixLevel?.map fun level => do
      let _ ← next
      let e ← g.operand level
      return .prefixed (t.span.join e.span) (level == .increment) e

/-- An operand without what follows it. Inside a string a keyword that begins a function or nothing is a name. -/
def primary (g : Grammar) (current : Level) : Parse Expr := do
  let t ← peek
  let following ← kindAt? 1
  let inString := (← get).inString
  if isNameBefore current following t.kind || inString && [.kwFunction, .kwFn].contains t.kind then
    let _ ← next
    return .name t.span
  match g.construct? t following with
  | some construct => construct
  | none =>
    if inString && t.kind.isKeyword then
      let _ ← next
      return .name t.span
    unexpected

/-! ### What follows an operand -/

/-- The arguments of a call, behind what is called. A call with a place left open is no call but a callable. -/
def called (g : Grammar) (callee : Expr) (call : Phrase .arguments → Expr) : Parse Expr := do
  let (s, held) ← g.callList
  match held with
  | none => return .callable (callee.span.join s) callee
  | some items => return call (.arguments s (.ofList items))

def selected (g : Grammar) (current : Level) (left : Expr) : Parse Expr := do
  let arrow ← next
  let sel ← g.selector
  let access : Expr := .member (left.span.join sel.span) left sel
  if (← at? .leftParenthesis) && current.rank ≤ Level.call.rank then
    if arrow.kind == .questionMinusGreaterThan then
      let args ← g.arguments
      return .methodCall (left.span.join args.span) left sel args
    return ← g.called access fun args => .methodCall (left.span.join args.span) left sel args
  return access

def postfixed (g : Grammar) (current : Level) (left : Expr) : Parse Expr := do
  let start := left.span.start
  match (← peek).kind with
  | .leftParenthesis => g.called left fun args => .call (left.span.join args.span) left args
  | .leftBracket =>
    let _ ← next
    if ← skip? .rightBracket then return .append (← spanFrom start) left
    let e ← g.value
    let _ ← expect .rightBracket
    return .index (← spanFrom start) left e
  | .plusPlus | .minusMinus =>
    let _ ← next
    return .postfixed (← spanFrom start) left
  | _ => g.selected current left

def infixed (g : Grammar) (operator : Level) (left : Expr) : Parse Expr := do
  let t ← next
  match operator with
  | .assignment =>
    -- A reference that is assigned ends where nothing binds as tightly as it does.
    let isReference := t.kind == .equal && (← at? .ampersand)
    let value ← g.operand (if isReference then .reference else .assignment)
    return assignTo value left
  | .conditional =>
    if ← skip? .colon then
      let no ← g.operand .conditional
      return .conditional (left.span.join no.span) left .none no
    let yes ← g.value
    let _ ← expect .colon
    let no ← g.operand .conditional
    return .conditional (left.span.join no.span) left (.some yes) no
  | .pipe =>
    let right ← g.operand .pipe
    return .pipe (left.span.join right.span) left right
  | _ =>
    let right ← g.operand operator
    return .binary (left.span.join right.span) left right

/-- A name in the place of a value is a constant. -/
def asValue : Expr → Expr
  | .name s => .constant s
  | e => e

/-- Extends `left` while something follows that binds tightly enough. A name is taken for a value, unless names are
to be kept, as soon as neither a call nor a `::` follows it. -/
def extend (g : Grammar) (current : Level) (keepNames : Bool) : Nat → Expr → Parse Expr
  | 0, left => return left
  | bound + 1, left => do
    match ← kind? with
    | none => return if keepNames then left else asValue left
    | some k =>
      let left := if keepNames || k == .leftParenthesis || k == .colonColon then left else asValue left
      match k.postfixLevel?, k.infixLevel? with
      | some level, _ =>
        if level.rank < current.rank then return left
        g.extend current keepNames bound (← g.postfixed current left)
      | none, some level =>
        if current.takes level then g.extend current keepNames bound (← g.infixed level left) else return left
      | none, none => return left

/-- The expression of at least level `current`, given the parsers for what lies deeper. Names are kept as such behind
`new` and `instanceof`. -/
def operandAt (g : Grammar) (current : Level) : Parse Expr := do
  let keepNames := current == .new || current == .instanceOf
  let left ← g.primary current
  g.extend current keepNames ((← get).left + 1) left

end PhpInspect.Php.Grammar
