import PhpInspect.Php.Parse.Expression

/-! # Statements -/

namespace PhpInspect.Php.Grammar

open Parse

/-- Ends a statement that began at `start` and gives its range. -/
def finished (start : Nat) : Parse Span := do
  terminator
  spanFrom start

def statementsUntil (g : Grammar) (kinds : List TokenKind) : Parse (List Stmt) := untilOneOf kinds g.statement

def stopOf (statements : List Stmt) (otherwise : Nat) : Nat :=
  match statements.getLast? with
  | some last => last.span.stop
  | none => otherwise

/-! ### Loops and branches -/

/-- The body of a loop: a statement, or statements between a colon and a closing keyword. -/
def loopBody (g : Grammar) (close : TokenKind) : Parse (Phrase .body) := do
  match ← take? .colon with
  | some colon =>
    let statements ← g.statementsUntil [close]
    let _ ← expect close
    let outer ← finished colon.span.start
    return .colonBody outer (.ofList statements)
  | none => return .stmtBody (← g.statement)

def forEach (g : Grammar) : Parse Stmt := do
  let start := (← expect .kwForeach).span.start
  let _ ← expect .leftParenthesis
  let subject ← g.value
  let _ ← expect .kwAs
  let first ← g.value
  let second ← if ← skip? .equalGreaterThan then do pure (some (← g.value)) else pure none
  let _ ← expect .rightParenthesis
  let body ← g.loopBody .kwEndForeach
  let span ← spanFrom start
  match second with
  | some value => return .forEach span subject (.some first) value body
  | none => return .forEach span subject .none first body

def clauseUntil (g : Grammar) (close : TokenKind) : Parse (Phrase (.list .expr)) := do
  return .ofList (← commaListTo close g.value)

def forLoop (g : Grammar) : Parse Stmt := do
  let start := (← expect .kwFor).span.start
  let _ ← expect .leftParenthesis
  let initial ← g.clauseUntil .semicolon
  let conditions ← g.clauseUntil .semicolon
  let increments ← g.clauseUntil .rightParenthesis
  let body ← g.loopBody .kwEndFor
  return .forLoop (← spanFrom start) initial conditions increments body

def whileLoop (g : Grammar) : Parse Stmt := do
  let start := (← expect .kwWhile).span.start
  let condition ← g.inParens
  let body ← g.loopBody .kwEndWhile
  return .whileLoop (← spanFrom start) condition body

def doWhile (g : Grammar) : Parse Stmt := do
  let start := (← expect .kwDo).span.start
  let body ← g.statement
  let _ ← expect .kwWhile
  let condition ← g.inParens
  return .doWhile (← finished start) (.stmtBody body) condition

def elseIf (g : Grammar) : Parse (Phrase .elseIf) := do
  let start := (← expect .kwElseIf).span.start
  let condition ← g.inParens
  let body ← g.statement
  return .elseIf (← spanFrom start) condition (.stmtBody body)

def otherwise (g : Grammar) : Parse (Phrase (.option .otherwise)) := do
  match ← take? .kwElse with
  | none => return .none
  | some t =>
    let body ← g.statement
    return .some (.otherwise (← spanFrom t.span.start) (.stmtBody body))

def colonClause (g : Grammar) (kinds : List TokenKind) : Parse (Span × List Stmt) := do
  let colon ← expect .colon
  let statements ← g.statementsUntil kinds
  return (colon.span, statements)

/-- What ends a clause of a branch that is not the last one. -/
def clauseEnds : List TokenKind := [.kwElseIf, .kwElse, .kwEndIf]

def colonElseIf (g : Grammar) : Parse (Phrase .elseIf) := do
  let start := (← expect .kwElseIf).span.start
  let condition ← g.inParens
  let (colon, statements) ← g.colonClause clauseEnds
  let span := ⟨start, stopOf statements colon.stop⟩
  return .elseIf span condition (.colonBody span (.ofList statements))

def colonOtherwise (g : Grammar) : Parse (Phrase (.option .otherwise)) := do
  match ← take? .kwElse with
  | none => return .none
  | some t =>
    let (colon, statements) ← g.colonClause [.kwEndIf]
    let span := ⟨t.span.start, stopOf statements colon.stop⟩
    return .some (.otherwise span (.colonBody span (.ofList statements)))

def branch (g : Grammar) : Parse Stmt := do
  let start := (← expect .kwIf).span.start
  let condition ← g.inParens
  if ← at? .colon then
    let (colon, statements) ← g.colonClause clauseEnds
    let elseIfs ← whileMore (at? .kwElseIf) g.colonElseIf
    let final ← g.colonOtherwise
    let _ ← expect .kwEndIf
    let outer ← finished colon.start
    return .branch ⟨start, outer.stop⟩ condition (.colonBody outer (.ofList statements)) (.ofList elseIfs)
      final
  let body ← g.statement
  let elseIfs ← whileMore (at? .kwElseIf) g.elseIf
  let final ← g.otherwise
  return .branch (← spanFrom start) condition (.stmtBody body) (.ofList elseIfs) final

def switchCase (g : Grammar) : Parse (Phrase .switchCase) := do
  let start := (← peek).span.start
  let condition ←
    if ← skip? .kwDefault then pure .none
    else do
      let _ ← expect .kwCase
      pure (Phrase.some (← g.value))
  let separator ← expectOneOf [.colon, .semicolon]
  let statements ← g.statementsUntil [.kwCase, .kwDefault, .kwEndSwitch, .rightBrace]
  return .switchCase ⟨start, stopOf statements separator.span.stop⟩ condition (.ofList statements)

def switch (g : Grammar) : Parse Stmt := do
  let start := (← expect .kwSwitch).span.start
  let subject ← g.inParens
  let opening ← expectOneOf [.colon, .leftBrace]
  optionalTerminator
  let cases ← untilOneOf [.kwEndSwitch, .rightBrace] g.switchCase
  if opening.kind == .colon then
    let _ ← expect .kwEndSwitch
    terminator
  else
    let _ ← expect .rightBrace
  return .switch (← spanFrom start) subject (.ofList cases)

def handler (g : Grammar) : Parse (Phrase .handler) := do
  let start := (← expect .kwCatch).span.start
  let _ ← expect .leftParenthesis
  typeHint
  let binder ← take? .varName
  let _ ← expect .rightParenthesis
  let body ← g.block
  return .handler (← spanFrom start) (binder.map (·.span)) body

def tryCatch (g : Grammar) : Parse Stmt := do
  let start := (← expect .kwTry).span.start
  let body ← g.block
  let handlers ← whileMore (at? .kwCatch) g.handler
  let final ←
    match ← take? .kwFinally with
    | none => pure .none
    | some t => do
      let cleaning ← g.block
      pure (Phrase.some (.cleanup (← spanFrom t.span.start) cleaning))
  return .tryCatch (← spanFrom start) body (.ofList handlers) final

/-! ### Declarations -/

def function (g : Grammar) (start : Nat) : Parse Stmt := do
  let _ ← expect .kwFunction
  let _ ← skip? .ampersand
  let functionName ← name
  let params ← g.parameters
  returnType
  let body ← g.block
  return .function (← spanFrom start) functionName.span params body

/-- The name of a class-like declaration, what stands between it and the members, and the members. -/
def classBody (g : Grammar) (start : Nat) (heading : Parse Unit) : Parse Stmt := do
  let className ← name
  heading
  let items ← g.members
  return .classLike (← spanFrom start) className.span (.ofList items)

def classDeclaration (g : Grammar) (start : Nat) : Parse Stmt := do
  modifiers
  let _ ← expect .kwClass
  g.classBody start ancestry

def otherDeclaration (g : Grammar) (start : Nat) : Parse Stmt := do
  let t ← expectOneOf [.kwInterface, .kwTrait, .kwEnum]
  g.classBody start do
    match t.kind with
    | .kwInterface => namesAfter .kwExtends
    | .kwEnum =>
      returnType
      namesAfter .kwImplements
    | _ => pure ()

/-- Whether the keyword `function` begins a closure and not a declaration. -/
def closureFollows : Parse Bool := do
  match ← kindAt? 1 with
  | some .leftParenthesis => return true
  | some .ampersand => return (← kindAt? 2) == some .leftParenthesis
  | _ => return false

/-- A closure that is a statement ends that statement. -/
def closureStatement (g : Grammar) (start : Nat) : Parse Stmt := do
  let e ← g.closure start
  return .exprStmt (← finished start) e

def functionOrClosure (g : Grammar) (start : Nat) : Parse Stmt := do
  if ← closureFollows then g.closureStatement start else g.function start

/-- A namespace up to its closing brace, or up to the next namespace or the end of the file. -/
def namespaced (g : Grammar) : Parse Stmt := do
  let start := (← expect .kwNamespace).span.start
  unless [.semicolon, .closeTag, .leftBrace].contains (← peek).kind do
    let _ ← qualifiedName
  if ← at? .leftBrace then
    let _ ← next
    let statements ← g.statementsUntil [.rightBrace]
    let _ ← expect .rightBrace
    return .namespaced (← spanFrom start) (.ofList statements)
  terminator
  let statements ← whileMore (do return (← kind?).any (· != .kwNamespace)) g.statement
  return .namespaced (← spanFrom start) (.ofList statements)

def declare (g : Grammar) (start : Nat) : Parse Stmt := do
  let _ ← expect .kwDeclare
  let _ ← expect .leftParenthesis
  let values ← commaListTo .rightParenthesis g.constantItem
  if ← skip? .colon then
    let statements ← g.statementsUntil [.kwEndDeclare]
    let _ ← expect .kwEndDeclare
    return .other (← finished start) (.ofList values) (.ofList statements)
  let statement ← g.statement
  return .other (← spanFrom start) (.ofList values) (.ofList [statement])

def importSort : Parse Bool := do
  if (← at? .kwFunction) || (← at? .kwConst) then
    let _ ← next
    return true
  return false

def importItem : Parse Unit := do
  let _ ← qualifiedName
  if ← skip? .kwAs then
    let _ ← name

/-- Imports, which may begin alike. Only if they do not say their sort together may each of them say it. -/
def imports (start : Nat) : Parse Stmt := do
  let _ ← expect .kwUse
  let isSorted ← importSort
  if (← kindAt? 1) == some .namespaceSeparator then
    let _ ← qualifiedName
    let _ ← next
    let _ ← expect .leftBrace
    let _ ← commaListTo .rightBrace do
      unless isSorted do
        let _ ← importSort
      importItem
  else
    let _ ← commaSeparated importItem
  return .other (← finished start) .nil .nil

def staticItem (g : Grammar) : Parse (Phrase .staticItem) := do
  let variableName ← expect .varName
  let initial ← if ← skip? .equal then do pure (Phrase.some (← g.value)) else pure .none
  return .staticItem variableName.span initial

/-! ### Short statements -/

def exprStatement (g : Grammar) (start : Nat) : Parse Stmt := do
  let e ← g.value
  return .exprStmt (← finished start) e

def optionalValue (g : Grammar) : Parse (Option Expr) := do
  if endings.contains (← peek).kind then return none else return some (← g.value)

def values (g : Grammar) : Parse (Phrase (.list .expr)) := do return .ofList (← commaList endings g.value)

def constantStatement (g : Grammar) (start : Nat) : Parse Stmt := do
  let _ ← expect .kwConst
  let values ← commaList endings g.constantItem
  return .other (← finished start) (.ofList values) .nil

def attributed (g : Grammar) (start : Nat) : Parse Stmt := do
  g.attributes
  let t ← peek
  match t.kind with
  | .kwInterface | .kwTrait | .kwEnum => g.otherDeclaration start
  | .kwConst => g.constantStatement start
  | .kwFunction => g.functionOrClosure start
  | .kwFn => g.closureStatement start
  | k =>
    if ← closureBegins then g.closureStatement start
    else if k == .kwClass || modifierKinds.contains k then g.classDeclaration start
    else throw (.expected [.kwInterface, .kwTrait, .kwEnum, .kwClass, .kwFunction, .kwFn, .kwReadonly, .kwAbstract,
      .kwFinal, .kwStatic] k)

/-- What shows behind a modifier that it does not begin a class. -/
def classRefusals : List TokenKind :=
  [.colonColon, .leftParenthesis, .minusGreaterThan, .questionMinusGreaterThan, .leftBracket, .kwFn, .kwFunction]

/-- A statement that begins with a modifier: a class, unless the modifier is an operand. -/
def modified (g : Grammar) (start : Nat) : Parse Stmt := do
  let following ← kindAt? 1
  if (← at? .kwStatic) && following == some .varName then
    let _ ← next
    let items ← commaList endings g.staticItem
    return .static (← finished start) (.ofList items)
  if following.any classRefusals.contains then g.exprStatement start else g.classDeclaration start

/-- A statement, given the parsers for what lies deeper. -/
def statementAt (g : Grammar) : Parse Stmt := do
  let t ← peek
  let start := t.span.start
  match t.kind with
  | .inlineText | .inlineShebang | .openTag | .shortOpenTag | .closeTag | .semicolon =>
    let _ ← next
    return .other t.span .nil .nil
  | .echoTag =>
    let _ ← next
    let values ← g.values
    return .other (← finished start) values .nil
  | .hashLeftBracket => g.attributed start
  | .kwClass => g.classDeclaration start
  | .kwInterface | .kwTrait | .kwEnum => g.otherDeclaration start
  | .kwDeclare => g.declare start
  | .kwNamespace => g.namespaced
  | .kwUse => imports start
  | .kwConst => g.constantStatement start
  | .kwFunction => g.functionOrClosure start
  | .kwGoto =>
    let _ ← next
    let _ ← name
    return .other (← finished start) .nil .nil
  | .kwGlobal =>
    let _ ← next
    let names ← commaList endings g.var
    return .global (← finished start) (.ofList names)
  | .leftBrace => return .blockStmt (← g.block)
  | .kwDo => g.doWhile
  | .kwForeach => g.forEach
  | .kwFor => g.forLoop
  | .kwWhile => g.whileLoop
  | .kwIf => g.branch
  | .kwSwitch => g.switch
  | .kwTry => g.tryCatch
  | .kwBreak | .kwContinue =>
    let _ ← next
    let value ← g.optionalValue
    return .other (← finished start) (.ofList value.toList) .nil
  | .kwReturn =>
    let _ ← next
    let value ← g.optionalValue
    return .ret (← finished start) (.ofOption value)
  | .kwEcho =>
    let _ ← next
    let values ← g.values
    return .echo (← finished start) values
  | .kwUnset =>
    let _ ← next
    let _ ← expect .leftParenthesis
    let values ← g.clauseUntil .rightParenthesis
    return .other (← finished start) values .nil
  | .kwHaltCompiler =>
    let _ ← next
    let _ ← expect .leftParenthesis
    let _ ← expect .rightParenthesis
    return .other (← finished start) .nil .nil
  | k =>
    if modifierKinds.contains k then g.modified start
    else if k.isWord && (← kindAt? 1) == some .colon then
      let _ ← next
      let _ ← next
      return .other (← spanFrom start) .nil .nil
    else g.exprStatement start

end PhpInspect.Php.Grammar
