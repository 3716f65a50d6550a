import PhpInspect.Config.Basic
import PhpInspect.Glob
import PhpInspect.Path

/-! # Files that are left out -/

namespace PhpInspect

namespace Exclusion

/-- The texts that a pattern matches, unless it makes no sense. -/
abbrev Matcher := String → Option (String → Bool)

def globs : Matcher := fun pattern => (Glob.ofText? pattern).map Glob.isMatch

/-- Whether a pattern matches the path or the name at its end. -/
def globMatches (matcher : Matcher) (pattern path : String) : Bool :=
  match matcher pattern with
  | none => false
  | some test => test path || (Path.fileName? path).any test

def directory? (pattern : String) : Option (List Char) :=
  match pattern.toList.reverse with
  | '/' :: cs => some (cs.dropWhile (· == '/')).reverse
  | _ => none

/-- Whether a pattern names a directory on the way of the path. -/
def directoryMatches (pattern path : String) : Bool :=
  (directory? pattern).any fun directory =>
    Text.occursIn ('/' :: directory ++ ['/']) path.toList || (directory ++ ['/']).isPrefixOf path.toList

def patternMatches (matcher : Matcher) (pattern path : String) : Bool :=
  globMatches matcher pattern path || directoryMatches pattern path

end Exclusion

namespace Config

def excludesBy (matcher : Exclusion.Matcher) (c : Config) (path : String) : Bool :=
  c.exclude.any fun pattern => Exclusion.patternMatches matcher pattern path

def excludes (c : Config) (path : String) : Bool := c.excludesBy Exclusion.globs path

end Config

end PhpInspect
