/-!
# Why a JSON text is refused

A text that ends too early is told apart from one that is malformed, and both from a well-formed
text that is no rule.
-/

namespace PegGrammar.Json

/-- The reason for which a JSON text does not load as a rule. -/
inductive Error where
  /-- The text ended inside of a value. -/
  | ended
  /-- Something stands where the format does not allow it, or a number or a nesting is too large. -/
  | malformed
  /-- Null is no rule. -/
  | null
  /-- A map has two entries of one key. -/
  | duplicateKey (key : String)
  deriving DecidableEq, Repr

/-- What is said about a well-formed text that is no rule. -/
def Error.message? : Error → Option String
  | .ended | .malformed => none
  | .null => some "invalid type: null, expected a string, number, boolean, list or map"
  | .duplicateKey key => some ("duplicate key `" ++ key ++ "`")

end PegGrammar.Json
