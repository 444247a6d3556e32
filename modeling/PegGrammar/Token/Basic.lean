/-!
# Tokens

A successful match gives a chain of tokens in the order of the text, which may be empty. A token
names a piece of the text by kind, value and byte span; the token of a named rule has the chain that
its body matched as children.
-/

namespace PegGrammar

/-- A piece of text that was matched. -/
structure Piece where
  /-- What matched it: the text of a literal, the name of a rule, or a fixed name. -/
  kind : String
  value : String
  /-- The byte offset at which it starts. -/
  start : Nat
  /-- The byte offset at which it ends. -/
  stop : Nat
  deriving DecidableEq, Repr

/-- A piece and the tokens below it. -/
structure Token where
  piece : Piece
  children : List Token

abbrev Chain := List Token

namespace Token

def leaf (kind value : String) (start stop : Nat) : Token := ⟨⟨kind, value, start, stop⟩, []⟩

def node (kind value : String) (start stop : Nat) (children : Chain) : Token :=
  ⟨⟨kind, value, start, stop⟩, children⟩

mutual

def size : Token → Nat
  | ⟨_, children⟩ => 1 + sizeOfChain children

def sizeOfChain : Chain → Nat
  | [] => 0
  | t :: ts => t.size + sizeOfChain ts

end

end Token

end PegGrammar
