import PegGrammar.Text.CodeSet

/-!
# Pattern trees

What a regular expression means, without its notation: flags are resolved, escapes are characters or
sets, and a letter whose case does not matter is a set.
-/

namespace PegGrammar.Pattern

/-- An assertion about the place between two characters. -/
inductive Look where
  | textStart
  | textEnd
  | lineStart
  | lineEnd
  /-- The start of a line where a carriage return ends lines too. -/
  | lineStartCrlf
  /-- The end of a line where a carriage return ends lines too. -/
  | lineEndCrlf
  /-- A word ends or starts here; the flag says whether words are made of ASCII only. -/
  | wordEdge (ascii : Bool)
  | noWordEdge (ascii : Bool)
  | wordStart (ascii : Bool)
  | wordEnd (ascii : Bool)
  /-- No word character stands before the place. -/
  | wordStartHalf (ascii : Bool)
  /-- No word character stands behind the place. -/
  | wordEndHalf (ascii : Bool)
  deriving DecidableEq, Repr

/-- A node of a pattern tree. -/
inductive Node where
  | empty
  | char (c : Char)
  | set (members : CodeSet)
  | look (l : Look)
  /-- At least `min` and at most `max` times, more or fewer first. -/
  | repeated (min : Nat) (max : Option Nat) (greedy : Bool) (body : Node)
  /-- A group; one whose match is remembered has a number. -/
  | group (number : Option Nat) (body : Node)
  | concat (items : List Node)
  | choice (branches : List Node)
  deriving Inhabited, Repr

namespace Node

/-- Nodes one behind the other; a single node stands for itself. -/
def sequence : List Node → Node
  | [] => .empty
  | [node] => node
  | nodes => .concat nodes

/-- Nodes to choose from; a single node stands for itself. -/
def oneOf : List Node → Node
  | [] => .empty
  | [node] => node
  | nodes => .choice nodes

def isEmpty : Node → Bool
  | .empty => true
  | _ => false

/-- Whether a tree can match only at the start of a text, because it begins with that assertion. -/
def startsAtText : Node → Bool
  | .look .textStart => true
  | .concat (.look .textStart :: _) => true
  | _ => false

end Node

/-- Whether an assertion depends on what stands before the place. -/
def Look.looksBehind : Look → Bool
  | .textStart | .lineStart | .lineStartCrlf => true
  | .textEnd | .lineEnd | .lineEndCrlf => false
  | .wordEdge _ | .noWordEdge _ | .wordStart _ | .wordEnd _ | .wordStartHalf _ => true
  | .wordEndHalf _ => false

namespace Node

mutual

/-- Whether a match depends on what stands before the place at which it starts: some assertion of
the tree does. -/
def looksBehind : Node → Bool
  | .empty | .char _ | .set _ => false
  | .look l => l.looksBehind
  | .repeated _ _ _ body => body.looksBehind
  | .group _ body => body.looksBehind
  | .concat items => anyLooksBehind items
  | .choice branches => anyLooksBehind branches

/-- Whether some node of a list looks behind. -/
def anyLooksBehind : List Node → Bool
  | [] => false
  | node :: nodes => node.looksBehind || anyLooksBehind nodes

end

end Node

end PegGrammar.Pattern
