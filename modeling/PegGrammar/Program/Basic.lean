import PegGrammar.Compile.Session

/-!
# Programs

A program is what is left of a compilation: the table of its rules, where to start, and the literals
that its alternatives start with.

Rules may be nested only so deeply that a stack of fixed size would hold them. Each level is given
room for itself and for as many combinators as the deepest body has.
-/

namespace PegGrammar

/-- A compiled grammar. -/
structure Program where
  /-- The rules by number. -/
  rules : List CompiledRule
  /-- The number of the rule to start with. -/
  start : Nat
  /-- The greatest nesting of a body. -/
  nesting : Nat
  /-- The literals that alternatives start with. -/
  literals : Registry String
  scripts : ScriptEngine
  config : Config
  /-- The fingerprint of the grammar. -/
  fingerprint : Fingerprint

namespace Program

def ruleRoom : Nat := 16 * 1024

def combinatorRoom : Nat := 16 * 1024

def baseRoom : Nat := 1024 * 1024

def maxRoom : Nat := 256 * 1024 * 1024

def roomPerLevel (p : Program) : Nat := ruleRoom + p.nesting * combinatorRoom

/-- How deeply rules can be nested: as deeply as the options say, if that fits. -/
def depthLimit (p : Program) : Nat := min p.config.maxDepth ((maxRoom - baseRoom) / p.roomPerLevel)

def stackSize (p : Program) : Nat := baseRoom + p.depthLimit * p.roomPerLevel

def ruleId? (p : Program) (name : String) : Option Nat :=
  p.rules.findIdx? (fun rule => rule.name = name)

def literalsStarting (p : Program) (text : List Char) : BitSet :=
  p.literals.entries.foldl (fun set (id, literal) =>
    if literal.toList.isPrefixOf text then set.addId id else set) (.empty p.literals.identity)

end Program

namespace Compiler

/-- Compiles the rule called `start` and all that it refers to, and gives what was recorded. -/
def compile (compiler : Compiler) (start : String) : Except CompileError Program × List LogRecord :=
  match compiler.grammar.lookup start with
  | none => (.error (.unknownStart start), [])
  | some rule =>
    let (outcome, session) := Session.start.compileRule compiler rule start
    let log := session.log.reverse
    match outcome with
    | .error error => (.error error, log)
    | .ok _ =>
      match session.table.id? start with
      | none => (.error (.unknownStart start), log)
      | some id =>
        match session.table.finish with
        | .error error => (.error error, log)
        | .ok rules =>
          let nesting := rules.foldl (fun n rule => max n rule.body.nesting) 0
          let program : Program :=
            ⟨rules, id, nesting, session.literals, compiler.scripts, compiler.config,
              compiler.fingerprint⟩
          let message := "compiled `" ++ start ++ "` (" ++ compiler.fingerprint.hex ++ "): "
            ++ toString rules.length ++ " rules nested up to " ++ toString nesting
            ++ " combinators deep, " ++ toString session.literals.size ++ " pruning prefixes"
          (.ok program, log ++ [⟨.debug, LogRecord.compiler, message⟩])

end Compiler

end PegGrammar
