/-!
# Options

What changes how a grammar is compiled and how it runs.
-/

namespace PegGrammar

/-- The options of a compiler and of its programs. -/
structure Config where
  /-- Skip the alternatives that cannot start with what follows. -/
  pruneAlternatives : Bool
  /-- A reference to a rule that is not defined stands for its own text. -/
  bareLiterals : Bool
  /-- How many named rules may be nested while a program runs. -/
  maxDepth : Nat
  /-- Record every rule that is entered and left. -/
  trace : Bool
  /-- Put what a named rule matches under a token of its name. -/
  parseTree : Bool
  deriving DecidableEq, Repr

def Config.default : Config := ⟨true, false, 1000, false, false⟩

end PegGrammar
