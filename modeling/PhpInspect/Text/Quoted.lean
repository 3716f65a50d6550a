import PhpInspect.Text.Printable

/-! # Quoted text

Text in double quotes in which every character shows. Quotes and backslashes are escaped, and so is what does not
show, by its code point.
-/

namespace PhpInspect.Text

def hexCode (c : Char) : List Char := Nat.toDigits 16 c.toNat

def quoteChar (c : Char) : List Char :=
  match c with
  | '"' => ['\\', '"']
  | '\\' => ['\\', '\\']
  | '\n' => ['\\', 'n']
  | '\t' => ['\\', 't']
  | '\r' => ['\\', 'r']
  | '\x00' => ['\\', '0']
  | c => if isPrintable c then [c] else "\\u\x7b".toList ++ hexCode c ++ "\x7d".toList

def quoted (s : String) : String := String.ofList ('"' :: s.toList.flatMap quoteChar ++ ['"'])

end PhpInspect.Text
