import PhpInspect.Issue.Order

/-! # The JSON report

Violations are grouped by file; what went wrong otherwise is listed apart.
-/

namespace PhpInspect

inductive Json where
  | string (text : String)
  | number (n : Nat)
  | array (items : List Json)
  | object (fields : List (String × Json))

namespace Json

def hexDigit (n : Nat) : Char := Nat.digitChar (n % 16)

def escapeChar (c : Char) : List Char :=
  match c with
  | '"' => ['\\', '"']
  | '\\' => ['\\', '\\']
  | '\x08' => ['\\', 'b']
  | '\x0c' => ['\\', 'f']
  | '\n' => ['\\', 'n']
  | '\r' => ['\\', 'r']
  | '\t' => ['\\', 't']
  | c => if c.toNat < 0x20 then ['\\', 'u', '0', '0', hexDigit (c.toNat / 16), hexDigit c.toNat] else [c]

def stringText (s : String) : String := String.ofList ('"' :: s.toList.flatMap escapeChar ++ ['"'])

def lineBreak (depth : Nat) : String := "\n" ++ String.ofList (List.replicate (2 * depth) ' ')

def bracketed (opening closing : String) (depth : Nat) (lines : List String) : String :=
  match lines with
  | [] => opening ++ closing
  | _ =>
    opening ++ lineBreak (depth + 1) ++ ("," ++ lineBreak (depth + 1)).intercalate lines ++ lineBreak depth ++ closing

mutual

/-- The text of a value over several lines, its first line at the given depth. -/
def text (depth : Nat) : Json → String
  | .string s => stringText s
  | .number n => toString n
  | .array items => bracketed "[" "]" depth (itemTexts (depth + 1) items)
  | .object fields => bracketed "\x7b" "\x7d" depth (fieldTexts (depth + 1) fields)

def itemTexts (depth : Nat) : List Json → List String
  | [] => []
  | item :: items => item.text depth :: itemTexts depth items

def fieldTexts (depth : Nat) : List (String × Json) → List String
  | [] => []
  | (name, value) :: fields => (stringText name ++ ": " ++ value.text depth) :: fieldTexts depth fields

end

end Json

namespace Report

def version : String := "0.1.0"

def violationJson (i : Issue) : Json :=
  .object [("beginLine", .number i.line), ("endLine", .number i.endLine), ("rule", .string i.rule),
    ("severity", .string i.severity.name), ("description", .string i.message)]

def fileJson (group : String × List Issue) : Json :=
  .object [("file", .string group.1), ("violations", .array (group.2.map violationJson))]

def errorJson (i : Issue) : Json :=
  .object [("file", .string i.file), ("line", .number i.line), ("kind", .string i.rule),
    ("message", .string i.message)]

/-- Puts a violation with its file, and any other issue behind the others of its sort. -/
def sortOut : List (String × List Issue) × List Issue → Issue → List (String × List Issue) × List Issue
  | (files, errors), i =>
    if i.isViolation then (Issue.addTo files i, errors) else (files, errors ++ [i])

def collect (issues : List Issue) : List (String × List Issue) × List Issue := issues.foldl sortOut ([], [])

def jsonDocument (issues : List Issue) : Json :=
  let (files, errors) := collect issues
  .object [
    ("version", .string version),
    ("totals", .object [("violations", .number (files.foldl (fun n file => n + file.2.length) 0)),
      ("files", .number files.length), ("errors", .number errors.length)]),
    ("files", .array (files.map fileJson)),
    ("errors", .array (errors.map errorJson))]

def json (issues : List Issue) : String := (jsonDocument issues).text 0

end Report

end PhpInspect
