import PhpInspect.Source.Span

/-! # Tokens

The words of PHP: keywords, symbols, casts, names, literals, the pieces of strings that hold variables,
and what stands outside of the PHP tags. A kind has a name, under which error messages speak of it.
-/

namespace PhpInspect.Php

/-- The two kinds of documents: heredocs hold variables, nowdocs do not. -/
inductive DocumentKind where
  | heredoc
  | nowdoc
deriving Repr, DecidableEq

inductive TokenKind where
  | identifier | qualifiedIdentifier | fullyQualifiedIdentifier | varName | literalInteger
  | literalFloat | literalString | partialLiteralString | doubleQuote | backtick | stringPart
  | documentEnd | inlineText | inlineShebang | openTag | shortOpenTag | echoTag
  | documentStart (kind : DocumentKind)
  | arrayCast | boolCast | booleanCast | doubleCast | realCast | floatCast | intCast | integerCast
  | objectCast | unsetCast | stringCast | binaryCast | voidCast
  | dollarLeftBrace | dollar | ampersandAmpersand | ampersandEqual | ampersand | minusGreaterThan
  | questionMinusGreaterThan | at | asteriskAsteriskEqual | asteriskAsterisk | asteriskEqual
  | asterisk | hashLeftBracket | bangEqualEqual | bangEqual | bang | lessThanEqualGreaterThan
  | lessThanGreaterThan | leftShiftEqual | leftShift | lessThanEqual | lessThan | rightShiftEqual
  | rightShift | greaterThanEqual | greaterThan | caretEqual | caret | minusMinus | minusEqual
  | minus | closeTag | questionQuestionEqual | questionQuestion | question | colonColon | colon
  | comma | slashEqual | slash | dotDotDot | dotEqual | dot | equalEqualEqual | equalEqual
  | equalGreaterThan | equal | plusPlus | plusEqual | plus | percentEqual | percent | pipePipe
  | pipeEqual | pipeGreaterThan | pipe | tilde | semicolon | leftBrace | rightBrace | leftBracket
  | rightBracket | leftParenthesis | rightParenthesis | namespaceSeparator
  | kwEval | kwDie | kwSelf | kwParent | kwFrom | kwPrint | kwHaltCompiler | kwReadonly | kwGlobal
  | kwAbstract | kwArray | kwAs | kwAnd | kwOr | kwXor | kwBreak | kwCallable | kwCase | kwCatch
  | kwClass | kwClassConstant | kwTraitConstant | kwFunctionConstant | kwMethodConstant
  | kwLineConstant | kwFileConstant | kwPropertyConstant | kwDirConstant | kwNamespaceConstant
  | kwClone | kwConst | kwContinue | kwDeclare | kwDefault | kwDo | kwElse | kwEcho | kwElseIf
  | kwEmpty | kwEndDeclare | kwEndFor | kwEndForeach | kwEndIf | kwEndSwitch | kwEndWhile | kwEnum
  | kwExtends | kwFalse | kwFinal | kwFinally | kwFn | kwFor | kwForeach | kwFunction | kwGoto
  | kwIf | kwImplements | kwInclude | kwIncludeOnce | kwInstanceof | kwInsteadof | kwExit
  | kwUnset | kwIsset | kwList | kwInterface | kwMatch | kwNamespace | kwNew | kwNull | kwPrivate
  | kwProtected | kwPublic | kwRequire | kwRequireOnce | kwReturn | kwStatic | kwSwitch | kwThrow
  | kwTrait | kwTrue | kwTry | kwUse | kwVar | kwYield | kwWhile
  | publicSet | protectedSet | privateSet
deriving Repr, DecidableEq

namespace TokenKind

/-- Keywords in lower case; PHP reads them without regard to case. -/
def keywords : List (String × TokenKind) :=
  [("eval", .kwEval), ("die", .kwDie), ("self", .kwSelf), ("parent", .kwParent),
    ("from", .kwFrom), ("print", .kwPrint), ("__halt_compiler", .kwHaltCompiler),
    ("readonly", .kwReadonly), ("global", .kwGlobal), ("abstract", .kwAbstract),
    ("array", .kwArray), ("as", .kwAs), ("and", .kwAnd), ("or", .kwOr), ("xor", .kwXor),
    ("break", .kwBreak), ("callable", .kwCallable), ("case", .kwCase), ("catch", .kwCatch),
    ("class", .kwClass), ("__class__", .kwClassConstant), ("__trait__", .kwTraitConstant),
    ("__function__", .kwFunctionConstant), ("__method__", .kwMethodConstant),
    ("__line__", .kwLineConstant), ("__file__", .kwFileConstant),
    ("__property__", .kwPropertyConstant), ("__dir__", .kwDirConstant),
    ("__namespace__", .kwNamespaceConstant), ("clone", .kwClone), ("const", .kwConst),
    ("continue", .kwContinue), ("declare", .kwDeclare), ("default", .kwDefault), ("do", .kwDo),
    ("else", .kwElse), ("echo", .kwEcho), ("elseif", .kwElseIf), ("empty", .kwEmpty),
    ("enddeclare", .kwEndDeclare), ("endfor", .kwEndFor), ("endforeach", .kwEndForeach),
    ("endif", .kwEndIf), ("endswitch", .kwEndSwitch), ("endwhile", .kwEndWhile),
    ("enum", .kwEnum), ("extends", .kwExtends), ("false", .kwFalse), ("final", .kwFinal),
    ("finally", .kwFinally), ("fn", .kwFn), ("for", .kwFor), ("foreach", .kwForeach),
    ("function", .kwFunction), ("goto", .kwGoto), ("if", .kwIf), ("implements", .kwImplements),
    ("include", .kwInclude), ("include_once", .kwIncludeOnce), ("instanceof", .kwInstanceof),
    ("insteadof", .kwInsteadof), ("exit", .kwExit), ("unset", .kwUnset), ("isset", .kwIsset),
    ("list", .kwList), ("interface", .kwInterface), ("match", .kwMatch),
    ("namespace", .kwNamespace), ("new", .kwNew), ("null", .kwNull), ("private", .kwPrivate),
    ("protected", .kwProtected), ("public", .kwPublic), ("require", .kwRequire),
    ("require_once", .kwRequireOnce), ("return", .kwReturn), ("static", .kwStatic),
    ("switch", .kwSwitch), ("throw", .kwThrow), ("trait", .kwTrait), ("true", .kwTrue),
    ("try", .kwTry), ("use", .kwUse), ("var", .kwVar), ("yield", .kwYield), ("while", .kwWhile)]

/-- Symbols, a longer one before those it begins with. -/
def symbols : List (String × TokenKind) :=
  [("$\x7b", .dollarLeftBrace), ("$", .dollar), ("&&", .ampersandAmpersand),
    ("&=", .ampersandEqual), ("&", .ampersand), ("->", .minusGreaterThan),
    ("?->", .questionMinusGreaterThan), ("@", .at), ("**=", .asteriskAsteriskEqual),
    ("**", .asteriskAsterisk), ("*=", .asteriskEqual), ("*", .asterisk), ("#[", .hashLeftBracket),
    ("!==", .bangEqualEqual), ("!=", .bangEqual), ("!", .bang),
    ("<=>", .lessThanEqualGreaterThan), ("<>", .lessThanGreaterThan), ("<<=", .leftShiftEqual),
    ("<<", .leftShift), ("<=", .lessThanEqual), ("<", .lessThan), (">>=", .rightShiftEqual),
    (">>", .rightShift), (">=", .greaterThanEqual), (">", .greaterThan), ("^=", .caretEqual),
    ("^", .caret), ("--", .minusMinus), ("-=", .minusEqual), ("-", .minus), ("?>", .closeTag),
    ("??=", .questionQuestionEqual), ("??", .questionQuestion), ("?", .question),
    ("::", .colonColon), (":", .colon), (",", .comma), ("/=", .slashEqual), ("/", .slash),
    ("...", .dotDotDot), (".=", .dotEqual), (".", .dot), ("===", .equalEqualEqual),
    ("==", .equalEqual), ("=>", .equalGreaterThan), ("=", .equal), ("++", .plusPlus),
    ("+=", .plusEqual), ("+", .plus), ("%=", .percentEqual), ("%", .percent), ("||", .pipePipe),
    ("|=", .pipeEqual), ("|>", .pipeGreaterThan), ("|", .pipe), ("~", .tilde), (";", .semicolon),
    ("\x7b", .leftBrace), ("\x7d", .rightBrace), ("[", .leftBracket), ("]", .rightBracket),
    ("(", .leftParenthesis), (")", .rightParenthesis), ("\\", .namespaceSeparator)]

def casts : List (String × TokenKind) :=
  [("array", .arrayCast), ("bool", .boolCast), ("boolean", .booleanCast), ("double", .doubleCast),
    ("real", .realCast), ("float", .floatCast), ("int", .intCast), ("integer", .integerCast),
    ("object", .objectCast), ("unset", .unsetCast), ("string", .stringCast),
    ("binary", .binaryCast), ("void", .voidCast)]

def name : TokenKind → String
  | .identifier => "Identifier"
  | .qualifiedIdentifier => "QualifiedIdentifier"
  | .fullyQualifiedIdentifier => "FullyQualifiedIdentifier"
  | .varName => "Variable"
  | .literalInteger => "LiteralInteger"
  | .literalFloat => "LiteralFloat"
  | .literalString => "LiteralString"
  | .partialLiteralString => "PartialLiteralString"
  | .doubleQuote => "DoubleQuote"
  | .backtick => "Backtick"
  | .stringPart => "StringPart"
  | .documentEnd => "DocumentEnd"
  | .inlineText => "InlineText"
  | .inlineShebang => "InlineShebang"
  | .openTag => "OpenTag"
  | .shortOpenTag => "ShortOpenTag"
  | .echoTag => "EchoTag"
  | .documentStart _ => "DocumentStart"
  | .arrayCast => "ArrayCast"
  | .boolCast => "BoolCast"
  | .booleanCast => "BooleanCast"
  | .doubleCast => "DoubleCast"
  | .realCast => "RealCast"
  | .floatCast => "FloatCast"
  | .intCast => "IntCast"
  | .integerCast => "IntegerCast"
  | .objectCast => "ObjectCast"
  | .unsetCast => "UnsetCast"
  | .stringCast => "StringCast"
  | .binaryCast => "BinaryCast"
  | .voidCast => "VoidCast"
  | .dollarLeftBrace => "DollarLeftBrace"
  | .dollar => "Dollar"
  | .ampersandAmpersand => "AmpersandAmpersand"
  | .ampersandEqual => "AmpersandEqual"
  | .ampersand => "Ampersand"
  | .minusGreaterThan => "MinusGreaterThan"
  | .questionMinusGreaterThan => "QuestionMinusGreaterThan"
  | .at => "At"
  | .asteriskAsteriskEqual => "AsteriskAsteriskEqual"
  | .asteriskAsterisk => "AsteriskAsterisk"
  | .asteriskEqual => "AsteriskEqual"
  | .asterisk => "Asterisk"
  | .hashLeftBracket => "HashLeftBracket"
  | .bangEqualEqual => "BangEqualEqual"
  | .bangEqual => "BangEqual"
  | .bang => "Bang"
  | .lessThanEqualGreaterThan => "LessThanEqualGreaterThan"
  | .lessThanGreaterThan => "LessThanGreaterThan"
  | .leftShiftEqual => "LeftShiftEqual"
  | .leftShift => "LeftShift"
  | .lessThanEqual => "LessThanEqual"
  | .lessThan => "LessThan"
  | .rightShiftEqual => "RightShiftEqual"
  | .rightShift => "RightShift"
  | .greaterThanEqual => "GreaterThanEqual"
  | .greaterThan => "GreaterThan"
  | .caretEqual => "CaretEqual"
  | .caret => "Caret"
  | .minusMinus => "MinusMinus"
  | .minusEqual => "MinusEqual"
  | .minus => "Minus"
  | .closeTag => "CloseTag"
  | .questionQuestionEqual => "QuestionQuestionEqual"
  | .questionQuestion => "QuestionQuestion"
  | .question => "Question"
  | .colonColon => "ColonColon"
  | .colon => "Colon"
  | .comma => "Comma"
  | .slashEqual => "SlashEqual"
  | .slash => "Slash"
  | .dotDotDot => "DotDotDot"
  | .dotEqual => "DotEqual"
  | .dot => "Dot"
  | .equalEqualEqual => "EqualEqualEqual"
  | .equalEqual => "EqualEqual"
  | .equalGreaterThan => "EqualGreaterThan"
  | .equal => "Equal"
  | .plusPlus => "PlusPlus"
  | .plusEqual => "PlusEqual"
  | .plus => "Plus"
  | .percentEqual => "PercentEqual"
  | .percent => "Percent"
  | .pipePipe => "PipePipe"
  | .pipeEqual => "PipeEqual"
  | .pipeGreaterThan => "PipeGreaterThan"
  | .pipe => "Pipe"
  | .tilde => "Tilde"
  | .semicolon => "Semicolon"
  | .leftBrace => "LeftBrace"
  | .rightBrace => "RightBrace"
  | .leftBracket => "LeftBracket"
  | .rightBracket => "RightBracket"
  | .leftParenthesis => "LeftParenthesis"
  | .rightParenthesis => "RightParenthesis"
  | .namespaceSeparator => "NamespaceSeparator"
  | .kwEval => "Eval"
  | .kwDie => "Die"
  | .kwSelf => "Self_"
  | .kwParent => "Parent"
  | .kwFrom => "From"
  | .kwPrint => "Print"
  | .kwHaltCompiler => "HaltCompiler"
  | .kwReadonly => "Readonly"
  | .kwGlobal => "Global"
  | .kwAbstract => "Abstract"
  | .kwArray => "Array"
  | .kwAs => "As"
  | .kwAnd => "And"
  | .kwOr => "Or"
  | .kwXor => "Xor"
  | .kwBreak => "Break"
  | .kwCallable => "Callable"
  | .kwCase => "Case"
  | .kwCatch => "Catch"
  | .kwClass => "Class"
  | .kwClassConstant => "ClassConstant"
  | .kwTraitConstant => "TraitConstant"
  | .kwFunctionConstant => "FunctionConstant"
  | .kwMethodConstant => "MethodConstant"
  | .kwLineConstant => "LineConstant"
  | .kwFileConstant => "FileConstant"
  | .kwPropertyConstant => "PropertyConstant"
  | .kwDirConstant => "DirConstant"
  | .kwNamespaceConstant => "NamespaceConstant"
  | .kwClone => "Clone"
  | .kwConst => "Const"
  | .kwContinue => "Continue"
  | .kwDeclare => "Declare"
  | .kwDefault => "Default"
  | .kwDo => "Do"
  | .kwElse => "Else"
  | .kwEcho => "Echo"
  | .kwElseIf => "ElseIf"
  | .kwEmpty => "Empty"
  | .kwEndDeclare => "EndDeclare"
  | .kwEndFor => "EndFor"
  | .kwEndForeach => "EndForeach"
  | .kwEndIf => "EndIf"
  | .kwEndSwitch => "EndSwitch"
  | .kwEndWhile => "EndWhile"
  | .kwEnum => "Enum"
  | .kwExtends => "Extends"
  | .kwFalse => "False"
  | .kwFinal => "Final"
  | .kwFinally => "Finally"
  | .kwFn => "Fn"
  | .kwFor => "For"
  | .kwForeach => "Foreach"
  | .kwFunction => "Function"
  | .kwGoto => "Goto"
  | .kwIf => "If"
  | .kwImplements => "Implements"
  | .kwInclude => "Include"
  | .kwIncludeOnce => "IncludeOnce"
  | .kwInstanceof => "Instanceof"
  | .kwInsteadof => "Insteadof"
  | .kwExit => "Exit"
  | .kwUnset => "Unset"
  | .kwIsset => "Isset"
  | .kwList => "List"
  | .kwInterface => "Interface"
  | .kwMatch => "Match"
  | .kwNamespace => "Namespace"
  | .kwNew => "New"
  | .kwNull => "Null"
  | .kwPrivate => "Private"
  | .kwProtected => "Protected"
  | .kwPublic => "Public"
  | .kwRequire => "Require"
  | .kwRequireOnce => "RequireOnce"
  | .kwReturn => "Return"
  | .kwStatic => "Static"
  | .kwSwitch => "Switch"
  | .kwThrow => "Throw"
  | .kwTrait => "Trait"
  | .kwTrue => "True"
  | .kwTry => "Try"
  | .kwUse => "Use"
  | .kwVar => "Var"
  | .kwYield => "Yield"
  | .kwWhile => "While"
  | .publicSet => "PublicSet"
  | .protectedSet => "ProtectedSet"
  | .privateSet => "PrivateSet"

/-- Modifiers for writing only. Each is one token, written without blanks. -/
def setModifiers : List (String × TokenKind) :=
  [("public(set)", .publicSet), ("protected(set)", .protectedSet), ("private(set)", .privateSet)]

def isKeyword (kind : TokenKind) : Bool := (keywords ++ setModifiers).any (·.2 == kind)

/-- Plain names, and keywords where they stand for a name. -/
def isWord (kind : TokenKind) : Bool := kind == .identifier || kind.isKeyword

end TokenKind

structure Token where
  kind : TokenKind
  span : Span
  text : String
deriving Repr, DecidableEq

inductive Fault where
  /-- A character that begins no token. -/
  | stray (found : Char)
  /-- A character, of which the first byte is given, in the place of the punctuation after `__halt_compiler`. -/
  | misplaced (byte : UInt8)
  | unclosedComment
deriving Repr, DecidableEq

end PhpInspect.Php
