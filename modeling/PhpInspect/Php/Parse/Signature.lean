import PhpInspect.Php.Parse.Grammar

/-! # Arguments, parameters and what surrounds them

Type hints, attributes and modifiers are read over.
-/

namespace PhpInspect.Php.Grammar

open Parse

/-! ### Arguments -/

/-- Whether a name with a colon follows, as before a named argument. -/
def namedFollows : Parse Bool := do
  if (← peek).kind.isWord then return (← kindAt? 1) == some .colon else return false

def argument (g : Grammar) : Parse (Phrase .argument) := do
  if ← namedFollows then
    let t ← next
    let _ ← next
    let e ← g.value
    return .namedArgument (t.span.join e.span) t.span e
  if ← skip? .dotDotDot then return .spreadArgument (← g.value)
  return .positional (← g.value)

/-- An argument of a call, `none` for a place that is left open: `?`, `...` or `name: ?`. -/
def openArgument (g : Grammar) : Parse (Option (Phrase .argument)) := do
  if ← skip? .question then return none
  if ← at? .dotDotDot then
    let following ← kindAt? 1
    if following == some .rightParenthesis || following == some .comma then
      let _ ← next
      return none
  if (← namedFollows) && (← kindAt? 2) == some .question then
    let _ ← next
    let _ ← next
    let _ ← next
    return none
  return some (← g.argument)

/-- The parentheses of a call with what they hold, `none` if a place is left open. -/
def callList (g : Grammar) : Parse (Span × Option (List (Phrase .argument))) := do
  let start := (← expect .leftParenthesis).span.start
  let items ← commaListTo .rightParenthesis g.openArgument
  return (← spanFrom start, if items.all Option.isSome then some (items.filterMap id) else none)

def arguments (g : Grammar) : Parse (Phrase .arguments) := do
  let start := (← expect .leftParenthesis).span.start
  let items ← commaListTo .rightParenthesis g.argument
  return .arguments (← spanFrom start) (.ofList items)

def optionalArguments (g : Grammar) : Parse (Phrase (.option .arguments)) := do
  if ← at? .leftParenthesis then return .some (← g.arguments) else return .none

/-! ### Attributes, modifiers and types -/

def attributeItem (g : Grammar) : Parse Unit := do
  let _ ← qualifiedName
  let _ ← g.optionalArguments

def attributes (g : Grammar) : Parse Unit := do
  let _ ← whileMore (skip? .hashLeftBracket) (commaListTo .rightBracket g.attributeItem)

def modifierKinds : List TokenKind :=
  [.kwPublic, .kwProtected, .kwPrivate, .kwStatic, .kwFinal, .kwAbstract, .kwReadonly, .publicSet, .protectedSet,
    .privateSet]

def modifiers : Parse Unit := do
  let _ ← whileMore (do return (← kind?).any modifierKinds.contains) next

def typeStarts : List TokenKind :=
  [.question, .leftParenthesis, .kwArray, .kwCallable, .kwNull, .kwTrue, .kwFalse, .kwStatic, .kwSelf, .kwParent,
    .kwEnum, .kwFrom, .identifier, .qualifiedIdentifier, .fullyQualifiedIdentifier]

/-- Whether a further member of a union or an intersection follows. An ampersand before a variable, before dots or
before another ampersand belongs to a parameter. -/
def typeGoesOn : Parse Bool := do
  match ← kind? with
  | some .pipe => return true
  | some .ampersand =>
    match ← kindAt? 1 with
    | some .varName | some .dotDotDot | some .ampersand => return false
    | _ => return true
  | _ => return false

/-- A type, nested in parentheses at most `depth` deep. Every member of it may be nullable. -/
def typeWithin : Nat → Parse Unit
  | 0 => unexpected
  | depth + 1 => do
    single depth
    let _ ← whileMore typeGoesOn do
      let _ ← next
      single depth
where
  single (depth : Nat) : Parse Unit := do
    let _ ← whileMore (at? .question) next
    let t ← expectOneOf typeStarts
    if t.kind == .leftParenthesis then
      typeWithin depth
      let _ ← expect .rightParenthesis

def typeHint : Parse Unit := do typeWithin ((← get).left + 1)

def returnType : Parse Unit := do
  if ← skip? .colon then typeHint

def optionalType : Parse Unit := do
  if (← kind?).any typeStarts.contains then typeHint

/-! ### Parameters and captures -/

def hookWith (g : Grammar) (parameters : Parse (Phrase .parameters)) : Parse (Phrase .hook) := do
  g.attributes
  let _ ← skip? .ampersand
  modifiers
  let _ ← name
  if ← at? .leftParenthesis then
    let _ ← parameters
  if ← at? .leftBrace then return .blockHook (← g.block)
  let t ← expectOneOf [.semicolon, .leftBrace, .equalGreaterThan]
  if t.kind == .equalGreaterThan then
    let e ← g.value
    let _ ← expect .semicolon
    return .exprHook e
  return .bareHook

def hooksWith (g : Grammar) (parameters : Parse (Phrase .parameters)) : Parse (List (Phrase .hook)) := do
  let _ ← expect .leftBrace
  let hooks ← untilOneOf [.rightBrace] (g.hookWith parameters)
  let _ ← expect .rightBrace
  return hooks

/-- A parameter. Its range begins with its attributes, modifiers or type, and without any of these with the dots
rather than with an ampersand before them. -/
def parameterWith (g : Grammar) (parameters : Parse (Phrase .parameters)) : Parse (Phrase .parameter) := do
  let first := (← peek).span.start
  g.attributes
  modifiers
  optionalType
  let ampersand ← take? .ampersand
  let dots ← take? .dotDotDot
  let variableName ← expect .varName
  let start := match ampersand, dots with
    | some a, some d => if first == a.span.start then d.span.start else first
    | _, _ => first
  let fallback ← if ← skip? .equal then do pure (some (← g.value)) else pure none
  let stop := match fallback with
    | some e => e.span.stop
    | none => variableName.span.stop
  if ← at? .leftBrace then
    let hooks ← g.hooksWith parameters
    return .parameter (← spanFrom start) variableName.span (.ofOption fallback) (.ofList hooks)
  return .parameter ⟨start, stop⟩ variableName.span (.ofOption fallback) .nil

/-- Parameters in parentheses; a hook of a parameter may have parameters of its own, `depth` deep. -/
def parametersWithin (g : Grammar) : Nat → Parse (Phrase .parameters)
  | 0 => unexpected
  | depth + 1 => do
    let start := (← expect .leftParenthesis).span.start
    let items ← commaListTo .rightParenthesis (g.parameterWith (g.parametersWithin depth))
    return .parameters (← spanFrom start) (.ofList items)

def parameters (g : Grammar) : Parse (Phrase .parameters) := do g.parametersWithin ((← get).left + 1)

def hooks (g : Grammar) : Parse (List (Phrase .hook)) := g.hooksWith g.parameters

def capture : Parse Capture := do
  let start := (← peek).span.start
  let byReference ← skip? .ampersand
  let variableName ← expect .varName
  return { span := ← spanFrom start, byReference, name := variableName.span }

def captures : Parse (Option Captures) := do
  match ← take? .kwUse with
  | none => return none
  | some t =>
    let _ ← expect .leftParenthesis
    let items ← commaListTo .rightParenthesis capture
    return some { span := ← spanFrom t.span.start, items }

end PhpInspect.Php.Grammar
