import PhpInspect.Text.Segments

/-! # Paths

A path is a text whose segments are divided by slashes. Paths are compared by components, so that it does not
matter how often a slash is repeated.
-/

namespace PhpInspect.Path

inductive Component where
  /-- A slash at the front. -/
  | root
  /-- A dot at the front. -/
  | here
  /-- Two dots. -/
  | up
  | name (text : String)
deriving Repr, DecidableEq

namespace Component

def rank : Component → Nat
  | .root => 0
  | .here => 1
  | .up => 2
  | .name _ => 3

def text : Component → String
  | .name s => s
  | _ => ""

protected def compare (a b : Component) : Ordering :=
  (Ord.compare a.rank b.rank).then (Ord.compare a.text b.text)

end Component

/-- What a segment behind the front stands for; an empty one and a dot stand for nothing. -/
def component? (segment : List Char) : Option Component :=
  match segment with
  | [] => none
  | ['.'] => none
  | ['.', '.'] => some .up
  | cs => some (.name (String.ofList cs))

def components (path : String) : List Component :=
  match Text.segments '/' path.toList with
  | [] => []
  | [] :: [] => []
  | [] :: rest => .root :: rest.filterMap component?
  | ['.'] :: rest => .here :: rest.filterMap component?
  | segments => segments.filterMap component?

def compareComponents : List Component → List Component → Ordering
  | [], [] => .eq
  | [], _ :: _ => .lt
  | _ :: _, [] => .gt
  | a :: as, b :: bs => (a.compare b).then (compareComponents as bs)

protected def compare (p q : String) : Ordering := compareComponents (components p) (components q)

def fileName? (path : String) : Option String :=
  match (components path).getLast? with
  | some (.name s) => some s
  | _ => none

/-- What stands behind the last dot of the name at the end, unless the name begins with that dot. -/
def extension? (path : String) : Option String := do
  let name ← fileName? path
  let pieces := Text.segments '.' name.toList
  let last ← pieces.getLast?
  if pieces.length ≤ 1 || pieces.dropLast == [[]] then none else some (String.ofList last)

def join (directory name : String) : String :=
  if directory.isEmpty then name
  else if directory.endsWith "/" then directory ++ name
  else directory ++ "/" ++ name

/-- A path, read from its end, without the slashes and dots there that stand for nothing. -/
def trimEnd : List Char → List Char
  | '/' :: c :: cs => trimEnd (c :: cs)
  | '.' :: '/' :: cs => if cs.isEmpty then '.' :: '/' :: cs else trimEnd ('/' :: cs)
  | cs => cs

/-- The path without its last component, none for the root and for the empty path. -/
def parent? (path : String) : Option String :=
  match (components path).getLast? with
  | none | some .root => none
  | some _ =>
    let reversed := trimEnd path.toList.reverse
    let above := reversed.dropWhile (· != '/')
    some (String.ofList (trimEnd above).reverse)

end PhpInspect.Path
