import Mathlib.Data.List.Forall2
import PhpInspect.Report.Json

/-! # JSON texts

The grammar of JSON as a relation between values and texts: blanks may stand around every token, and a character of a
string may be written in more than one way. The text of a report is one of the texts of its document.
-/

namespace PhpInspect.Json

/-! ### The grammar -/

def IsBlank (cs : List Char) : Prop := ∀ c ∈ cs, c = ' ' ∨ c = '\t' ∨ c = '\n' ∨ c = '\r'

def hexValue (d : Char) : Nat := if d.isDigit then d.toNat - '0'.toNat else d.toNat - 'a'.toNat + 10

/-- How a character may be written inside of a string. -/
inductive WritesChar : Char → List Char → Prop
  | plain {c : Char} (hprintable : 0x20 ≤ c.toNat) (hquote : c ≠ '"') (hslash : c ≠ '\\') : WritesChar c [c]
  | quote : WritesChar '"' ['\\', '"']
  | backslash : WritesChar '\\' ['\\', '\\']
  | backspace : WritesChar '\x08' ['\\', 'b']
  | formFeed : WritesChar '\x0c' ['\\', 'f']
  | lineFeed : WritesChar '\n' ['\\', 'n']
  | carriageReturn : WritesChar '\r' ['\\', 'r']
  | tab : WritesChar '\t' ['\\', 't']
  | code {c k l m n : Char} (h : ((hexValue k * 16 + hexValue l) * 16 + hexValue m) * 16 + hexValue n = c.toNat) :
    WritesChar c ['\\', 'u', k, l, m, n]

def WritesString (s : String) (cs : List Char) : Prop :=
  ∃ pieces, List.Forall₂ WritesChar s.toList pieces ∧ cs = '"' :: pieces.flatten ++ ['"']

/-- Texts with commas between them. -/
inductive Listed : List (List Char) → List Char → Prop
  | nil {blank : List Char} (h : IsBlank blank) : Listed [] blank
  | single {before cs after : List Char} (hbefore : IsBlank before) (hafter : IsBlank after) :
    Listed [cs] (before ++ cs ++ after)
  | cons {before cs after ds rest : List Char} {texts : List (List Char)} (hbefore : IsBlank before)
    (hafter : IsBlank after) (hrest : Listed (ds :: texts) rest) :
    Listed (cs :: ds :: texts) (before ++ cs ++ after ++ ',' :: rest)

mutual

def Writes : Json → List Char → Prop
  | .string s, cs => WritesString s cs
  | .number n, cs => cs = Nat.toDigits 10 n
  | .array items, cs => ∃ texts inner, WritesItems items texts ∧ Listed texts inner ∧ cs = '[' :: inner ++ [']']
  | .object fields, cs => ∃ texts inner, WritesFields fields texts ∧ Listed texts inner ∧
    cs = '\x7b' :: inner ++ ['\x7d']

def WritesItems : List Json → List (List Char) → Prop
  | [], texts => texts = []
  | item :: items, texts => ∃ cs rest, Writes item cs ∧ WritesItems items rest ∧ texts = cs :: rest

def WritesFields : List (String × Json) → List (List Char) → Prop
  | [], texts => texts = []
  | (name, value) :: fields, texts => ∃ key before after cs rest, WritesString name key ∧ IsBlank before ∧
    IsBlank after ∧ Writes value cs ∧ WritesFields fields rest ∧ texts = (key ++ before ++ ':' :: after ++ cs) :: rest

end

/-! ### The text of a value -/

theorem hexValue_hexDigit : ∀ n < 0x20,
    ((hexValue '0' * 16 + hexValue '0') * 16 + hexValue (hexDigit (n / 16))) * 16 + hexValue (hexDigit n) = n := by
  decide

theorem writesChar_escapeChar (c : Char) : WritesChar c (escapeChar c) := by
  unfold escapeChar
  split
  · exact .quote
  · exact .backslash
  · exact .backspace
  · exact .formFeed
  · exact .lineFeed
  · exact .carriageReturn
  · exact .tab
  · next hquote hslash _ _ _ _ _ =>
    split
    · next hcontrol => exact .code (hexValue_hexDigit c.toNat hcontrol)
    · next hprintable => exact .plain (Nat.le_of_not_lt hprintable) hquote hslash

theorem writesString_stringText (s : String) : WritesString s (stringText s).toList := by
  refine ⟨s.toList.map escapeChar, ?_, ?_⟩
  · exact List.forall₂_map_right_iff.2 (List.forall₂_same.2 fun c _ => writesChar_escapeChar c)
  · simp [stringText, List.flatMap_def]

theorem isBlank_lineBreak (depth : Nat) : IsBlank (lineBreak depth).toList := by
  intro c hc
  simp only [lineBreak, String.toList_append, String.toList_ofList, List.mem_append, List.mem_replicate] at hc
  rcases hc with hc | ⟨-, rfl⟩
  · exact .inr (.inr (.inl (by simpa using hc)))
  · exact .inl rfl

theorem isBlank_nil : IsBlank [] := nofun

/-- Lines behind line breaks, with commas at their ends. -/
theorem listed_intercalate (inside outside : Nat) (line : String) (lines : List String) :
    Listed ((line :: lines).map String.toList) ((lineBreak inside).toList ++
      (("," ++ lineBreak inside).intercalate (line :: lines)).toList ++ (lineBreak outside).toList) := by
  induction lines generalizing line with
  | nil =>
    rw [String.intercalate_singleton]
    exact .single (isBlank_lineBreak inside) (isBlank_lineBreak outside)
  | cons next lines ih =>
    have hrest : Listed (line.toList :: next.toList :: lines.map String.toList) _ :=
      .cons (isBlank_lineBreak inside) isBlank_nil (ih next)
    simpa [String.intercalate_cons_cons] using hrest

theorem listed_bracketed (opening closing : String) (depth : Nat) (lines : List String) : ∃ inner,
    Listed (lines.map String.toList) inner ∧
      (bracketed opening closing depth lines).toList = opening.toList ++ inner ++ closing.toList := by
  cases lines with
  | nil => exact ⟨[], .nil isBlank_nil, by simp [bracketed]⟩
  | cons line lines =>
    refine ⟨_, listed_intercalate (depth + 1) depth line lines, ?_⟩
    simp [bracketed]

mutual

theorem writes_text (depth : Nat) : ∀ j : Json, Writes j (j.text depth).toList
  | .string s => by
    rw [Writes, text]
    exact writesString_stringText s
  | .number n => by
    rw [Writes, text]
    exact Nat.toList_repr
  | .array items => by
    rw [Writes, text]
    obtain ⟨inner, hlisted, htext⟩ := listed_bracketed "[" "]" depth (itemTexts (depth + 1) items)
    exact ⟨_, inner, writesItems_itemTexts (depth + 1) items, hlisted, htext⟩
  | .object fields => by
    rw [Writes, text]
    obtain ⟨inner, hlisted, htext⟩ := listed_bracketed "\x7b" "\x7d" depth (fieldTexts (depth + 1) fields)
    exact ⟨_, inner, writesFields_fieldTexts (depth + 1) fields, hlisted, htext⟩

theorem writesItems_itemTexts (depth : Nat) : ∀ items : List Json,
    WritesItems items ((itemTexts depth items).map String.toList)
  | [] => by
    rw [WritesItems, itemTexts]
    rfl
  | item :: items => by
    rw [WritesItems, itemTexts]
    exact ⟨_, _, writes_text depth item, writesItems_itemTexts depth items, rfl⟩

theorem writesFields_fieldTexts (depth : Nat) : ∀ fields : List (String × Json),
    WritesFields fields ((fieldTexts depth fields).map String.toList)
  | [] => by
    rw [WritesFields, fieldTexts]
    rfl
  | (name, value) :: fields => by
    rw [WritesFields, fieldTexts]
    refine ⟨_, [], [' '], _, _, writesString_stringText name, isBlank_nil, ?_, writes_text depth value,
      writesFields_fieldTexts depth fields, ?_⟩
    · exact fun c hc => .inl (by simpa using hc)
    · simp

end

theorem writes_text_of_eq {j document : Json} (h : j = document) (depth : Nat) :
    Writes j (document.text depth).toList := h ▸ writes_text depth document

end PhpInspect.Json
