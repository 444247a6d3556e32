/-!
# Keywords

The reserved keys that turn a map with one entry into a combinator. Every key that starts with a
dollar sign is reserved, whether or not it is one of these.
-/

namespace PegGrammar

/-- A combinator, as a grammar names it. -/
inductive Keyword where
  | sequence
  | repeated
  | choice
  | ahead
  | notAhead
  | optional
  | literal
  | regex
  | eof
  | indent
  | script
  | astNode
  | astProp
  deriving DecidableEq, Repr

namespace Keyword

def all : List Keyword :=
  [.sequence, .repeated, .choice, .ahead, .notAhead, .optional, .literal, .regex, .eof, .indent,
    .script, .astNode, .astProp]

def key : Keyword → String
  | .sequence => "$sequence"
  | .repeated => "$repeat"
  | .choice => "$or"
  | .ahead => "$and"
  | .notAhead => "$not"
  | .optional => "$optional"
  | .literal => "$literal"
  | .regex => "$regex"
  | .eof => "$eof"
  | .indent => "$indent"
  | .script => "$script"
  | .astNode => "$ast-node"
  | .astProp => "$ast-prop"

/-- The keyword that a key stands for. `$lua` is a second spelling of `$script`. -/
def ofKey? (k : String) : Option Keyword :=
  if k = "$lua" then some .script else all.find? (fun keyword => keyword.key = k)

def isReserved (k : String) : Bool := k.toList.head? = some '$'

/-- Every keyword is read back from its key. -/
theorem ofKey?_key (keyword : Keyword) : ofKey? keyword.key = some keyword := by
  cases keyword <;> decide

end Keyword

end PegGrammar
