import PegGrammar.Log.Filter

/-!
# Arguments of the command line

Flags may stand anywhere among the two paths, and the last of several settings of one flag counts.
-/

namespace PegGrammar.CommandLine

def usage : String :=
  "usage: parsejoy [-v...] [--start NAME] [--config FILE] [--trace] [--tree] <grammar> <input>"

/-- What the command line asks for. -/
structure Arguments where
  /-- How many times records of one more level are asked for. -/
  verbosity : Nat
  /-- The rule to start with. -/
  start : String
  /-- The path of a file of options. -/
  config? : Option String
  /-- Whether rules are traced. -/
  trace : Bool
  /-- Whether named rules get tokens of their own. -/
  tree : Bool
  /-- The path of the grammar. -/
  grammar : String
  /-- The path of the text. -/
  input : String
  deriving DecidableEq, Repr

/-- What is wrong with arguments. -/
inductive ArgumentError where
  | startWithoutName
  | configWithoutFile
  | unknownFlag (flag : String)
  /-- There are fewer or more than two paths. -/
  | wrongPaths
  deriving DecidableEq, Repr

def ArgumentError.message : ArgumentError → String
  | .startWithoutName => "`--start` needs a rule name"
  | .configWithoutFile => "`--config` needs a file"
  | .unknownFlag flag => "unknown flag `" ++ flag ++ "`"
  | .wrongPaths => "expected a grammar file and an input file"

namespace Arguments

/-- How many times a flag such as `-vv` asks for more records, if it is one. -/
def verbosityOf? (argument : String) : Option Nat :=
  match argument.toList with
  | '-' :: c :: cs => if (c :: cs).all (· = 'v') then some (cs.length + 1) else none
  | _ => none

/-- Reads arguments one by one. Paths are gathered last first, and put in their places at the end. -/
def read (found : Arguments) (paths : List String) : List String → Except ArgumentError Arguments
  | [] =>
    match paths with
    | [input, grammar] => .ok { found with grammar, input }
    | _ => .error .wrongPaths
  | "--start" :: name :: rest => read { found with start := name } paths rest
  | ["--start"] => .error .startWithoutName
  | "--config" :: path :: rest => read { found with config? := some path } paths rest
  | ["--config"] => .error .configWithoutFile
  | "--trace" :: rest => read { found with trace := true } paths rest
  | "--tree" :: rest => read { found with tree := true } paths rest
  | argument :: rest =>
    match verbosityOf? argument with
    | some more => read { found with verbosity := found.verbosity + more } paths rest
    | none =>
      if argument.toList.head? = some '-' then .error (.unknownFlag argument)
      else read found (argument :: paths) rest

/-- The name of the start rule where none is given. -/
def defaultStart : String := "start"

def ofList (arguments : List String) : Except ArgumentError Arguments :=
  read ⟨0, defaultStart, none, false, false, "", ""⟩ [] arguments

/-- From which level on records are shown. Traces are of no use unless they are. -/
def threshold (a : Arguments) : LogThreshold :=
  if a.trace then some .trace
  else
    match a.verbosity with
    | 0 => some .warn
    | 1 => some .info
    | 2 => some .debug
    | _ => some .trace

def paths (a : Arguments) : List String := a.config?.toList ++ [a.grammar, a.input]

end Arguments

end PegGrammar.CommandLine
