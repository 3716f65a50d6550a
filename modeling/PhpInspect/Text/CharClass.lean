/-! # Classes of characters -/

namespace PhpInspect.Text

/-- A class of characters as ranges of code points, both ends included. -/
structure CharClass where
  ranges : List (Nat × Nat)
deriving Repr, DecidableEq

namespace CharClass

def contains (cls : CharClass) (c : Char) : Bool :=
  cls.ranges.any fun (first, last) => first ≤ c.toNat && c.toNat ≤ last

end CharClass

end PhpInspect.Text
