/-! # Byte ranges of a source text -/

namespace PhpInspect

/-- A half-open range `start ..< stop` of UTF-8 byte offsets. -/
structure Span where
  start : Nat
  stop : Nat
deriving Repr, DecidableEq, Inhabited

namespace Span

def join (a b : Span) : Span := ⟨a.start, b.stop⟩

end Span

end PhpInspect
