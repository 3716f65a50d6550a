import PhpInspect.Php.Parse.Signature

/-! # Members of classes -/

namespace PhpInspect.Php.Grammar

open Parse

def method (g : Grammar) (start : Nat) : Parse (Phrase .member) := do
  let _ ← expect .kwFunction
  let _ ← skip? .ampersand
  let methodName ← name
  let params ← g.parameters
  returnType
  let body ←
    if ← skip? .semicolon then pure .none
    else do pure (Phrase.some (← g.block))
  return .method (← spanFrom start) methodName.span params body

def constantItem (g : Grammar) : Parse Expr := do
  let _ ← name
  let _ ← expect .equal
  g.value

/-- The constants of a class whose modifiers, if any, begin at `start`. A type comes first unless the first name is
followed by a value or by the end of the item. -/
def constants (g : Grammar) (start : Nat) : Parse (Phrase .member) := do
  let _ ← expect .kwConst
  unless (← kindAt? 1).any [.equal, .comma, .semicolon, .closeTag].contains do optionalType
  let values ← commaList endings g.constantItem
  terminator
  return .declaration (← spanFrom start) (.ofList values) .nil

def propertyItem (g : Grammar) : Parse (Option Expr) := do
  let _ ← expect .varName
  if ← skip? .equal then return some (← g.value) else return none

/-- The properties whose modifiers begin at `start`. A property with hooks stands alone. -/
def property (g : Grammar) (start : Nat) : Parse (Phrase .member) := do
  let _ ← skip? .kwVar
  optionalType
  let first ← g.propertyItem
  if ← at? .leftBrace then
    let hooks ← g.hooks
    return .declaration (← spanFrom start) (.ofList first.toList) (.ofList hooks)
  let others ← whileMore (skip? .comma) g.propertyItem
  terminator
  return .declaration (← spanFrom start) (.ofList ((first :: others).filterMap id)) .nil

/-- A rule on the methods of traits that are used together: `A::m insteadof B;` or `m as protected n;`. -/
def adaptation : Parse Unit := do
  if (← kindAt? 1) == some .colonColon then
    let _ ← qualifiedName
    let _ ← next
    let _ ← name
    if (← expectOneOf [.kwAs, .kwInsteadof]).kind == .kwInsteadof then
      let _ ← commaSeparated qualifiedName
      return ← terminator
  else
    let _ ← name
    let _ ← expect .kwAs
  if (← kind?).any [.kwPublic, .kwProtected, .kwPrivate].contains then
    let _ ← next
  if (← kind?).any TokenKind.isWord then
    let _ ← next
  terminator

def traitUse (start : Nat) : Parse (Phrase .member) := do
  let _ ← expect .kwUse
  let _ ← commaSeparated qualifiedName
  if ← skip? .leftBrace then
    let _ ← untilOneOf [.rightBrace] adaptation
    let _ ← expect .rightBrace
  else terminator
  return .declaration (← spanFrom start) .nil .nil

def enumCase (g : Grammar) (start : Nat) : Parse (Phrase .member) := do
  let _ ← expect .kwCase
  let _ ← name
  let value ← if ← skip? .equal then do pure [← g.value] else pure []
  terminator
  return .declaration (← spanFrom start) (.ofList value) .nil

def member (g : Grammar) : Parse (Phrase .member) := do
  let start := (← peek).span.start
  if ← at? .kwUse then return ← traitUse start
  g.attributes
  if ← at? .kwCase then return ← g.enumCase start
  modifiers
  match (← peek).kind with
  | .kwFunction => g.method start
  | .kwConst => g.constants start
  | _ => g.property start

def members (g : Grammar) : Parse (List (Phrase .member)) := do
  let _ ← expect .leftBrace
  let items ← untilOneOf [.rightBrace] g.member
  let _ ← expect .rightBrace
  return items

def namesAfter (keyword : TokenKind) : Parse Unit := do
  if ← skip? keyword then
    let _ ← commaSeparated qualifiedName

def ancestry : Parse Unit := do
  namesAfter .kwExtends
  namesAfter .kwImplements

end PhpInspect.Php.Grammar
