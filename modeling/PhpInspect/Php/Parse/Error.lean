import PhpInspect.Php.Token

/-! # What can be wrong with a program text -/

namespace PhpInspect.Php

inductive ParseError where
  | unexpectedEnd
  | unexpectedToken (found : TokenKind)
  /-- One of several kinds was due. -/
  | expected (kinds : List TokenKind) (found : TokenKind)
  /-- A string without its closing quote. -/
  | unclosedString (isDouble : Bool)
  /-- A text that is not made of tokens. -/
  | unreadable (fault : Fault)
deriving Repr, DecidableEq

namespace ParseError

def hexDigit (n : Nat) : Char := (Nat.digitChar (n % 16)).toUpper

def quotedByte (byte : Nat) : String :=
  "`" ++ (Char.ofNat byte).toString ++ "` (0x" ++ String.ofList [hexDigit (byte / 16), hexDigit byte] ++ ")"

def message : ParseError → String
  | unexpectedEnd => "Unexpected end of file"
  | unexpectedToken found => "Unexpected token `" ++ found.name ++ "`"
  | expected kinds found =>
    "Expected one of " ++ ", ".intercalate (kinds.map fun k => "`" ++ k.name ++ "`") ++ ", found `"
      ++ found.name ++ "`"
  | unclosedString true => "Unclosed double-quoted string"
  | unclosedString false => "Unclosed single-quoted string"
  | unreadable (.stray found) => "Unrecognised token " ++ quotedByte found.toNat
  | unreadable (.misplaced byte) => "Unexpected token " ++ quotedByte byte.toNat
  | unreadable .unclosedComment => "Unexpected end of file"

end ParseError

end PhpInspect.Php
