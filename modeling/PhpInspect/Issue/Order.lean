import PhpInspect.Issue.Basic
import PhpInspect.Path

/-! # The order of issues -/

namespace PhpInspect.Issue

def comparePlace (a b : Issue) : Ordering := (Path.compare a.file b.file).then (compare a.line b.line)

protected def compare (a b : Issue) : Ordering := (comparePlace a b).then (Ord.compare a.rule b.rule)

/-- Issues in order; those that do not differ in it keep theirs. -/
def sorted (issues : List Issue) : List Issue := issues.mergeSort fun a b => (a.compare b).isLE

def sortedByPlace (issues : List Issue) : List Issue := issues.mergeSort fun a b => (comparePlace a b).isLE

/-! ### Groups -/

/-- Puts an issue behind those of its file. Files stand in the order of their texts, and the first issue of a file makes
a place for it. -/
def addTo (groups : List (String × List Issue)) (issue : Issue) : List (String × List Issue) :=
  match groups with
  | [] => [(issue.file, [issue])]
  | (file, members) :: rest =>
    if issue.file < file then (issue.file, [issue]) :: (file, members) :: rest
    else if issue.file = file then (file, members ++ [issue]) :: rest
    else (file, members) :: addTo rest issue

def groups (issues : List Issue) : List (String × List Issue) := issues.foldl addTo []

end PhpInspect.Issue
