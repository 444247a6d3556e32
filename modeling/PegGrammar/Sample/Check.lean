import PegGrammar.Program.Run
import PegGrammar.Rule.Printer
import PegGrammar.Sample.Basic
import PegGrammar.Text.Width
import PegGrammar.Token.Shown
import PegGrammar.Token.Walk

/-!
# Checking samples

The grammar of a sample must read back from its JSON text, and it must not matter whether the
alternatives that cannot match are skipped: both programs are run on every text from every place, and
must match the same and end at the same place.
-/

namespace PegGrammar.Sample

/-- What a match gave and where it ended. -/
structure Ending where
  outcome : Option Chain
  position : Nat

def Ending.same (a b : Ending) : Bool :=
  a.position = b.position &&
    match a.outcome, b.outcome with
    | some m, some n => Token.sameChain m n
    | none, none => true
    | _, _ => false

/-- What can be wrong with a sample. -/
inductive Problem where
  /-- The JSON text of the grammar does not load. -/
  | unloadable (reason : LoadError)
  /-- The grammar that was read back has another fingerprint. -/
  | fingerprint
  /-- Only one of the two programs compiles, or they fail in different ways. -/
  | compilation (skipping trying : Option CompileError)
  /-- A match failed and moved the cursor. -/
  | moved (input : String) (start stop : Nat)
  /-- The two programs match differently. -/
  | endings (input : String) (start : Nat) (skipping trying : Ending)

def Ending.shown (e : Ending) : String :=
  Token.shownOutcome e.outcome ++ " (ending at " ++ toString e.position ++ ")"

def Problem.message : Problem → String
  | .unloadable reason => reason.message
  | .fingerprint => "reloading the grammar changed its fingerprint"
  | .compilation skipping trying =>
    let shown (error : Option CompileError) := Token.shownOption (error.map CompileError.message)
    "pruning changed compilation: " ++ shown skipping ++ " vs " ++ shown trying
  | .moved input start stop =>
    "failing to parse " ++ Text.shown input ++ " moved the cursor from " ++ toString start ++ " to "
      ++ toString stop
  | .endings input start skipping trying =>
    "pruning changed the parse of " ++ Text.shown input ++ " from " ++ toString start ++ ": "
      ++ skipping.shown ++ " vs " ++ trying.shown

/-- Runs a program on a text from an offset. -/
def runFrom (p : Program) (input : String) (start : Nat) : Except Problem Ending :=
  let result := p.run ((Cursor.start input).setPosition start)
  let stop := result.cursor.position
  if result.outcome.isNone ∧ stop ≠ start then .error (.moved input start stop)
  else .ok ⟨result.outcome, stop⟩

/-- Compares two programs on a text from an offset. -/
def compareFrom (skipping trying : Program) (input : String) (start : Nat) :
    Except Problem Unit := do
  let a ← runFrom skipping input start
  let b ← runFrom trying input start
  if a.same b then .ok () else .error (.endings input start a b)

def startRule : String := "start"

def compileWith (config : Config) (grammar : Rule) : Except CompileError Program := do
  let compiler ← Compiler.ofRule grammar .none config []
  (compiler.compile startRule).1

/-- How deeply rules may be nested where nothing else is said. Little, because most samples are left
recursive. -/
def defaultDepth : Nat := 6

/-- Checks a sample, with so many rules nested at most. -/
def check (maxDepth : Nat) (s : Sample) : Except Problem Unit := do
  let reloaded ← (Rule.grammarOfJson s.grammar.render).mapError Problem.unloadable
  if Fingerprint.ofRule reloaded ≠ Fingerprint.ofRule s.grammar then throw .fingerprint
  let config : Config := { Config.default with maxDepth }
  let skipping := compileWith { config with pruneAlternatives := true } s.grammar
  let trying := compileWith { config with pruneAlternatives := false } s.grammar
  match skipping, trying with
  | .ok skipping, .ok trying =>
    s.inputs.forM (fun input =>
      (offsets 0 input.toList).forM (compareFrom skipping trying input))
  | .error a, .error b =>
    if a.kind = b.kind then .ok () else throw (.compilation (some a) (some b))
  | .error a, .ok _ => throw (.compilation (some a) none)
  | .ok _, .error b => throw (.compilation none (some b))

end PegGrammar.Sample
