import PhpInspect.Source.Span

/-! # Lines and columns of byte offsets

Only the line feed ends a line. The table holds the offset at which each line begins, so the line of an
offset is the number of lines that begin at or before it, found by bisection.
-/

namespace PhpInspect

/-- The offsets at which the lines of a text begin, in increasing order. -/
structure LineTable where
  starts : Array Nat
deriving Repr, DecidableEq, Inhabited

namespace LineTable

def startsAfter (offset : Nat) : List UInt8 → List Nat
  | [] => []
  | b :: bs =>
    if b = 10 then (offset + 1) :: startsAfter (offset + 1) bs else startsAfter (offset + 1) bs

def ofBytes (bytes : ByteArray) : LineTable := ⟨(0 :: startsAfter 0 bytes.data.toList).toArray⟩

def ofText (text : String) : LineTable := ofBytes text.toUTF8

/-- The number of lines; a text that ends in a line feed has an empty last line. -/
def lineCount (t : LineTable) : Nat := t.starts.size

def startOf (t : LineTable) (i : Nat) : Nat := t.starts.getD i 0

/-- Bisection between `lo` and `hi`: lines below `lo` begin at or before `offset`, lines from `hi` on
begin after it. -/
def bisect (t : LineTable) (offset lo hi : Nat) : Nat :=
  if lo < hi then
    let mid := (lo + hi) / 2
    if t.startOf mid ≤ offset then t.bisect offset (mid + 1) hi else t.bisect offset lo mid
  else lo
termination_by hi - lo

/-- The line of an offset, counted from one. Offsets past the end lie on the last line. -/
def lineOf (t : LineTable) (offset : Nat) : Nat := t.bisect offset 0 t.lineCount

/-- The column of an offset in bytes, counted from one. Offsets and columns are machine words, and a line that is not in
the table, one that begins behind the offset or a column that is no word is an error. -/
def columnOf (t : LineTable) (offset : Nat) : Option Nat := do
  let line := t.lineOf offset
  let start ← if 0 < line then t.starts[line - 1]? else none
  if start ≤ offset ∧ offset - start + 1 < UInt64.size then return offset - start + 1 else none

/-- The lines of the first and the last byte of a range; an empty range lies where it begins. -/
def linesOf (t : LineTable) (span : Span) : Nat × Nat :=
  (t.lineOf span.start, t.lineOf (if span.start < span.stop then span.stop - 1 else span.start))

end LineTable

end PhpInspect
