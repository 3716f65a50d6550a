/-! # Globs

Patterns for paths. A star matches any text, also across slashes. Two stars stand for any directories and must be
a whole segment.
-/

namespace PhpInspect

inductive CharRange where
  | single (c : Char)
  | between (first last : Char)
deriving Repr, DecidableEq

namespace CharRange

def contains (range : CharRange) (c : Char) : Bool :=
  match range with
  | .single d => c == d
  | .between first last => first ≤ c && c ≤ last

end CharRange

namespace Glob

inductive Piece where
  | literal (c : Char)
  | anyChar
  | anyText
  /-- Any number of whole directories. -/
  | anyDirectories
  /-- A character in one of some ranges, or in none of them. -/
  | ofClass (negated : Bool) (ranges : List CharRange)
deriving Repr, DecidableEq

end Glob

structure Glob where
  pieces : List Glob.Piece
deriving Repr, DecidableEq

namespace Glob

/-! ### Reading -/

/-- The ranges of a class; a dash between two characters makes a range. -/
def rangesOf : List Char → List CharRange
  | a :: '-' :: b :: cs => .between a b :: rangesOf cs
  | c :: cs => .single c :: rangesOf cs
  | [] => []

/-- What stands in a class before its closing bracket, and how many characters that takes with the bracket. The
first character is never the closing bracket. -/
def class? : List Char → Option (List Char × Nat)
  | [] => none
  | c :: cs =>
    let inner := cs.takeWhile (· != ']')
    if inner.length < cs.length then some (c :: inner, inner.length + 2) else none

def classPiece? : List Char → Option (Piece × Nat)
  | '!' :: cs => (class? cs).map fun (inner, n) => (.ofClass true (rangesOf inner), n + 1)
  | cs => (class? cs).map fun (inner, n) => (.ofClass false (rangesOf inner), n)

/-- Two stars in the place of whole directories: how many characters they take, if they may stand here. -/
def doubleStar? (previous : Option Char) (following : List Char) : Option Nat :=
  if previous == none || previous == some '/' then
    match following with
    | [] => some 2
    | '/' :: _ => some 3
    | _ => none
  else none

def piece? (previous : Option Char) : List Char → Option (Piece × Nat)
  | [] => none
  | '?' :: _ => some (.anyChar, 1)
  | '*' :: cs =>
    match (cs.takeWhile (· == '*')).length with
    | 0 => some (.anyText, 1)
    | 1 => (doubleStar? previous (cs.drop 1)).map fun n => (.anyDirectories, n)
    | _ => none
  | '[' :: cs => (classPiece? cs).map fun (piece, n) => (piece, n + 1)
  | c :: _ => some (.literal c, 1)

/-- The pieces of a pattern; `skipped` characters belong to a piece already read. -/
def piecesFrom? (previous : Option Char) (skipped : Nat) : List Char → Option (List Piece)
  | [] => some []
  | c :: cs =>
    match skipped with
    | n + 1 => piecesFrom? (some c) n cs
    | 0 => do
      let (piece, n) ← piece? previous (c :: cs)
      return piece :: (← piecesFrom? (some c) (n - 1) cs)

def ofText? (pattern : String) : Option Glob := (piecesFrom? none 0 pattern.toList).map Glob.mk

/-! ### Matching -/

def ends : List Char → List (List Char)
  | [] => [[]]
  | c :: cs => (c :: cs) :: ends cs

/-- The ends of a text that follow a slash, and the empty end. -/
def endsAfterSlash : List Char → List (List Char)
  | [] => [[]]
  | c :: cs => if c == '/' then cs :: endsAfterSlash cs else endsAfterSlash cs

def pieceMatches (piece : Piece) (c : Char) : Bool :=
  match piece with
  | .literal d => c == d
  | .anyChar => true
  | .ofClass negated ranges => ranges.any (·.contains c) != negated
  | .anyText | .anyDirectories => false

def matchesFrom : List Piece → List Char → Bool
  | [], cs => cs.isEmpty
  | .anyText :: pieces, cs => (ends cs).any (matchesFrom pieces)
  | .anyDirectories :: pieces, cs => (cs :: endsAfterSlash cs).any (matchesFrom pieces)
  | piece :: pieces, cs =>
    match cs with
    | [] => false
    | c :: cs => pieceMatches piece c && matchesFrom pieces cs

/-! ### Matching every end at once

To try every way in which stars can share a text takes time exponential in the number of stars. The answers for
all ends of the text, the whole text first, can be had from those for one piece less.
-/

/-- Whether some entry is true at or behind each place. -/
def orBehind : List Bool → List Bool
  | [] => []
  | b :: bs =>
    let behind := orBehind bs
    (b || behind.headD false) :: behind

/-- Whether some entry is true behind a slash or at the end, from each place of a text on. -/
def orBehindSlash : List Char → List Bool → List Bool
  | c :: cs, _ :: bs =>
    let behind := orBehindSlash cs bs
    ((c == '/' && bs.headD false) || behind.headD false) :: behind
  | _, bs => bs

def andBehind (p : Char → Bool) : List Char → List Bool → List Bool
  | c :: cs, _ :: bs => (p c && bs.headD false) :: andBehind p cs bs
  | _, _ => [false]

def matchesEnds : List Piece → List Char → List Bool
  | [], cs => (ends cs).map List.isEmpty
  | .anyText :: pieces, cs => orBehind (matchesEnds pieces cs)
  | .anyDirectories :: pieces, cs =>
    let rest := matchesEnds pieces cs
    List.zipWith (· || ·) rest (orBehindSlash cs rest)
  | piece :: pieces, cs => andBehind (pieceMatches piece) cs (matchesEnds pieces cs)

def isMatch (g : Glob) (text : String) : Bool := (matchesEnds g.pieces text.toList).headD false

variable (f : List Char → Bool)

@[simp] theorem head?_ends (cs : List Char) : (ends cs).head? = some cs := by cases cs <;> rfl

theorem orBehind_map_ends (cs : List Char) :
    orBehind ((ends cs).map f) = (ends cs).map fun t => (ends t).any f := by
  induction cs with
  | nil => simp [ends, orBehind]
  | cons c cs ih => simp [ends, orBehind, ih]

theorem orBehindSlash_map_ends (cs : List Char) :
    orBehindSlash cs ((ends cs).map f) = (ends cs).map fun t => (endsAfterSlash t).any f := by
  induction cs with
  | nil => simp [ends, orBehindSlash, endsAfterSlash]
  | cons c cs ih =>
    by_cases h : c = '/' <;> simp [ends, orBehindSlash, endsAfterSlash, ih, h]

theorem andBehind_map_ends (p : Char → Bool) (cs : List Char) :
    andBehind p cs ((ends cs).map f) =
      (ends cs).map fun t => match t with
        | [] => false
        | c :: t => p c && f t := by
  induction cs with
  | nil => simp [ends, andBehind]
  | cons c cs ih => simp [ends, andBehind, ih]

theorem matchesEnds_eq (pieces : List Piece) (cs : List Char) :
    matchesEnds pieces cs = (ends cs).map (matchesFrom pieces) := by
  induction pieces with
  | nil => rfl
  | cons piece pieces ih =>
    cases piece with
    | anyText => simp [matchesEnds, matchesFrom, ih, orBehind_map_ends]
    | anyDirectories => simp [matchesEnds, matchesFrom, ih, orBehindSlash_map_ends]
    | _ => simp [matchesEnds, matchesFrom, ih, andBehind_map_ends]

theorem isMatch_eq (g : Glob) (text : String) : g.isMatch text = matchesFrom g.pieces text.toList := by
  simp [isMatch, matchesEnds_eq]

end Glob

end PhpInspect
