import PhpInspect.Rule.Options
import PhpInspect.Rule.UndefinedVariable
import PhpInspect.Rule.UnreachableCode

/-! # Applying rules

A rule reads its options only for what it looks at: an abstract method has nothing to look at.
-/

namespace PhpInspect

namespace UndefinedVariable.Settings

def ofOptions (o : Options) : Logged Settings := do
  let ignorePregMatch ← o.bool "ignorePregMatch" false
  let analyzeClosures ← o.bool "analyzeClosures" true
  return { ignorePregMatch, analyzeClosures }

end UndefinedVariable.Settings

namespace Finality

def ofOptions (o : Options) : Logged Finality := do
  let name ← o.string "finality" "structural"
  match ofName? name with
  | some finality => return finality
  | none =>
    Logged.note (o.invalid "finality" (.string name) "structural")
    return .structural

end Finality

namespace Rule

def apply (r : Rule) (t : Tree) (unit : Nat) (o : Options) : Logged (Except RuleError (List Violation)) :=
  if t.isAbstract unit then pure (.ok [])
  else
    match r with
    | .undefinedVariable => do return UndefinedVariable.report t (← UndefinedVariable.Settings.ofOptions o) unit
    | .unreachableCode =>
      match t.requireChild unit .scope with
      | .error e => pure (.error e)
      | .ok _ => do return UnreachableCode.report t (← Finality.ofOptions o) unit

end Rule

end PhpInspect
