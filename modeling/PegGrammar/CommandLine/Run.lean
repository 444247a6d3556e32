import PegGrammar.CommandLine.Arguments
import PegGrammar.CommandLine.Listing
import PegGrammar.Config.Load
import PegGrammar.Program.Run
import PegGrammar.Rule.Load

/-!
# The command line

A grammar file is compiled and a text file is matched with it. The tokens of the match are the output;
what went wrong, and the records that are to be shown, go to where messages go. The exit code tells a
text that does not match from everything else that can go wrong.
-/

namespace PegGrammar.CommandLine

/-- What a run of the command line leaves behind. -/
structure Outcome where
  exitCode : Nat
  output : String
  /-- The messages in their order. -/
  messages : List String
  deriving DecidableEq, Repr

def noMatchCode : Nat := 1

def failureCode : Nat := 2

/-- The part of the program that this is, as its records name it. -/
def target : String := "parsejoy"

def shownRecord (record : LogRecord) : String :=
  record.level.name ++ " " ++ record.target ++ " > " ++ record.message

abbrev Failure := String

/-- A run: what was recorded so far, and a result or what stopped it. -/
abbrev Recorded (α : Type) := ExceptT Failure (StateM (List LogRecord)) α

def recordAll (records : List LogRecord) : Recorded Unit := modify (· ++ records)

def record (level : LogLevel) (message : String) : Recorded Unit :=
  recordAll [⟨level, target, message⟩]

def orFail {ε α : Type} (message : ε → String) : Except ε α → Recorded α
  | .ok a => pure a
  | .error e => throw (message e)

/-- What a match leads to: the output, or what is said of the text. -/
abbrev Verdict := Except String String

/-- The options of a run: those of the file, if there is one, and those of the flags. -/
def configOf (read : FileReader) (a : Arguments) : Recorded Config := do
  let config ← match a.config? with
    | some path => orFail ConfigError.message (Config.ofFile read path)
    | none => pure .default
  pure { config with trace := config.trace || a.trace, parseTree := config.parseTree || a.tree }

def programOf (read : FileReader) (a : Arguments) : Recorded Program := do
  let config ← configOf read a
  record .info ("Loading grammar from " ++ Text.shownPath a.grammar)
  let grammar ← orFail LoadError.message (Rule.grammarOfFile read a.grammar)
  let compiler ← orFail CompileError.message (Compiler.ofRule grammar .none config [])
  record .debug ("Grammar fingerprint: " ++ compiler.fingerprint.hex)
  let (compiled, log) := compiler.compile a.start
  recordAll log
  let program ← orFail CompileError.message compiled
  record .info ("Compiled " ++ toString program.rules.length ++ " rules")
  pure program

def matchText (read : FileReader) (a : Arguments) : Recorded Verdict := do
  let program ← programOf read a
  let text ← orFail FileError.message (read a.input)
  let source := Cursor.start text
  let result := program.parse text
  recordAll result.log
  match result.outcome with
  | some chain =>
    let stop := result.cursor.position
    if stop < source.length then
      record .warn ("Parse stopped before the end of the input, at " ++ shownPlace source stop)
    pure (.ok (listing source chain))
  | none =>
    pure (.error (Text.shownPath a.input ++ ":" ++ shownPlace source result.report.furthest ++ ": "
      ++ Program.failureMessage result.report))

/-- Runs the command line. `filter?` is what is written about the records to show, which goes before
the flags. -/
def run (read : FileReader) (filter? : Option String) (arguments : List String) : Outcome :=
  match Arguments.ofList arguments with
  | .error e => ⟨failureCode, "", [e.message, usage]⟩
  | .ok a =>
    let (filter, warnings) :=
      (filter?.map (LogFilter.ofThreshold a.threshold).refine).getD (.ofThreshold a.threshold, [])
    let shown (records : List LogRecord) := warnings ++ (records.filter filter.shows).map shownRecord
    match (matchText read a).run.run [] with
    | (.error failure, records) =>
      ⟨failureCode, "", shown (records ++ [⟨.error, target, failure⟩])⟩
    | (.ok (.ok output), records) => ⟨0, output, shown records⟩
    | (.ok (.error message), records) => ⟨noMatchCode, "", shown records ++ [message]⟩

end PegGrammar.CommandLine
