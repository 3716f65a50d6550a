/-! # Arguments of the command line

Options and paths may be mixed. A long option takes its value behind an equals sign or as the next argument, short
options may be written together, and two dashes end the options.
-/

namespace PhpInspect.CommandLine

structure Arguments where
  paths : List String := []
  format : Option String := none
  config : Option String := none
  noConfig : Bool := false
  rules : List String := []
  ignorePregMatch : Bool := false
  /-- A log is wanted, perhaps in a given file. -/
  debugLog : Option (Option String) := none
  verbose : Bool := false
  listRules : Bool := false
deriving Repr, DecidableEq

inductive Refusal where
  | usage
  | help
  | version
deriving Repr, DecidableEq

inductive Switch where
  | format
  | config
  | rule
  | debugLog
  | noConfig
  | ignorePregMatch
  | verbose
  | listRules
  | help
  | version
deriving Repr, DecidableEq

inductive Arity where
  | never
  | perhaps
  | always
deriving Repr, DecidableEq

namespace Switch

def ofLong? : String → Option Switch
  | "format" => some .format
  | "config" => some .config
  | "rule" => some .rule
  | "debug-log" => some .debugLog
  | "no-config" => some .noConfig
  | "ignore-preg-match" => some .ignorePregMatch
  | "verbose" => some .verbose
  | "list-rules" => some .listRules
  | "help" => some .help
  | "version" => some .version
  | _ => none

def ofShort? : Char → Option Switch
  | 'r' => some .rule
  | 'v' => some .verbose
  | 'h' => some .help
  | 'V' => some .version
  | _ => none

def arity : Switch → Arity
  | .format | .config | .rule => .always
  | .debugLog => .perhaps
  | _ => .never

end Switch

namespace Arguments

/-- A switch that may be given only once is not given twice. -/
def once {α : Type} (present : Option α) (a : Arguments) : Except Refusal Arguments :=
  if present.isSome then .error .usage else .ok a

def onceFlag (present : Bool) (a : Arguments) : Except Refusal Arguments :=
  if present then .error .usage else .ok a

def add (a : Arguments) (s : Switch) (value : Option String) : Except Refusal Arguments :=
  match s, value with
  | .help, none => .error .help
  | .version, none => .error .version
  | .format, some v => once a.format { a with format := some v }
  -- The path of a file is not empty.
  | .config, some v => if v.isEmpty then .error .usage else once a.config { a with config := some v }
  | .rule, some v => .ok { a with rules := a.rules ++ [v] }
  | .debugLog, v => if v == some "" then .error .usage else once a.debugLog { a with debugLog := some v }
  | .noConfig, none => onceFlag a.noConfig { a with noConfig := true }
  | .ignorePregMatch, none => onceFlag a.ignorePregMatch { a with ignorePregMatch := true }
  | .verbose, none => onceFlag a.verbose { a with verbose := true }
  | .listRules, none => onceFlag a.listRules { a with listRules := true }
  | _, _ => .error .usage

def addPath (a : Arguments) (path : String) : Except Refusal Arguments :=
  if path.isEmpty then .error .usage else .ok { a with paths := a.paths ++ [path] }

/-- Whether an argument cannot be the value of a switch. -/
def looksLikeSwitch (arg : String) : Bool := arg.startsWith "-" && arg != "-"

/-- A switch with the value that was written with it, and the arguments behind it. The next argument is its value
if it needs one or may take one. -/
def addWith (a : Arguments) (s : Switch) (attached : Option String) (rest : List String) :
    Except Refusal (Arguments × List String) :=
  match attached, s.arity, rest with
  | some _, .never, _ => .error .usage
  | some v, _, _ => do return (← a.add s (some v), rest)
  | none, .never, _ => do return (← a.add s none, rest)
  | none, .perhaps, next :: others =>
    if looksLikeSwitch next then do return (← a.add s none, rest)
    else do return (← a.add s (some next), others)
  | none, .perhaps, [] => do return (← a.add s none, [])
  | none, .always, next :: others =>
    if looksLikeSwitch next then .error .usage else do return (← a.add s (some next), others)
  | none, .always, [] => .error .usage

/-- Short switches written together. What follows one with a value is its value. -/
def addShort (a : Arguments) : List Char → List String → Except Refusal (Arguments × List String)
  | [], rest => .ok (a, rest)
  | c :: cs, rest =>
    match Switch.ofShort? c with
    | none => .error .usage
    | some s =>
      match s.arity, cs with
      | .never, _ => do addShort (← a.add s none) cs rest
      | _, [] => a.addWith s none rest
      | _, '=' :: value => a.addWith s (some (String.ofList value)) rest
      | _, value => a.addWith s (some (String.ofList value)) rest

def addLong (a : Arguments) (text : List Char) (rest : List String) : Except Refusal (Arguments × List String) :=
  let name := String.ofList (text.takeWhile (· != '='))
  let attached := match text.dropWhile (· != '=') with
    | [] => none
    | _ :: value => some (String.ofList value)
  match Switch.ofLong? name with
  | none => .error .usage
  | some s => a.addWith s attached rest

def readFrom (a : Arguments) : Nat → List String → Except Refusal Arguments
  | 0, _ => .ok a
  | _ + 1, [] => .ok a
  | bound + 1, arg :: rest => do
    match arg.toList with
    | ['-', '-'] => rest.foldlM addPath a
    | '-' :: '-' :: text =>
      let (a, rest) ← a.addLong text rest
      readFrom a bound rest
    | '-' :: c :: cs =>
      let (a, rest) ← a.addShort (c :: cs) rest
      readFrom a bound rest
    | _ => readFrom (← a.addPath arg) bound rest

/-- The arguments of a run. There are paths unless only the rules are listed, and a configuration is not both given
and refused. -/
def ofList (args : List String) : Except Refusal Arguments := do
  let a ← readFrom {} args.length args
  if a.config.isSome && a.noConfig then throw .usage
  if a.paths.isEmpty && !a.listRules then throw .usage
  return a

end Arguments

end PhpInspect.CommandLine
