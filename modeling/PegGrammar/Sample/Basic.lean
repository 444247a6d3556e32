import PegGrammar.Rule.Load
import PegGrammar.Rule.Printer

/-!
# Samples

A sample is a grammar with texts to run it on. It is written as the JSON map of the two, so that a
sample that shows a fault can be kept and read back.
-/

namespace PegGrammar

/-- A grammar and the texts to run it on. -/
structure Sample where
  grammar : Rule
  inputs : List String
  deriving DecidableEq

namespace Sample

def grammarKey : String := "grammar"

def inputsKey : String := "inputs"

def toRule (s : Sample) : Rule :=
  .grammar [(grammarKey, s.grammar), (inputsKey, .list (s.inputs.map Rule.text))]

def render (s : Sample) : String := s.toRule.render

/-- The sample that a JSON text holds. Entries other than the two are ignored. -/
def ofJson? (text : String) : Option Sample := do
  let document ← (Rule.ofJson? text).toOption
  let grammar ← document.field? grammarKey
  let items ← (← document.field? inputsKey).asList?
  some ⟨grammar, ← items.mapM Rule.asText?⟩

/-- How many bytes are gone over when a sample is checked: each text is run three times from each
place. -/
def workload (s : Sample) : Nat :=
  s.inputs.foldr (fun input n => input.utf8ByteSize * (input.utf8ByteSize + 1) * 3 + n) 0

end Sample

end PegGrammar
