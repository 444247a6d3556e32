/-!
# Trees of words

Words in the order of their preference, joined where they begin alike. A node of the tree keeps the
order between the words that end at it and those that go on: its branches come in sections, and a word
ends between one section and the next.
-/

namespace PegGrammar.Pattern

/-- A tree of words. -/
inductive WordTree where
  /-- The sections behind each of which a word ends, and the section that is still open. -/
  | node (closed : List (List (Nat × WordTree))) (current : List (Nat × WordTree))

namespace WordTree

def start : WordTree := .node [] []

/-- Changes the branch for a byte; a branch that is not there is a new one. -/
def change (byte : Nat) (f : WordTree → WordTree) :
    List (Nat × WordTree) → List (Nat × WordTree)
  | [] => [(byte, f start)]
  | (b, tree) :: branches =>
    if b = byte then (b, f tree) :: branches else (b, tree) :: change byte f branches

def isLeaf : WordTree → Bool
  | .node closed current => closed.all List.isEmpty && current.isEmpty

/-- Adds a word. Where no word goes on, one end is as good as many. -/
def insert : List Nat → WordTree → WordTree
  | [], .node closed current =>
    if (closed.all List.isEmpty && current.isEmpty) ∧ !closed.isEmpty then .node closed current
    else .node (closed ++ [current]) []
  | byte :: bytes, .node closed current => .node closed (change byte (insert bytes) current)

def ofWords (words : List (List Nat)) : WordTree :=
  words.foldl (fun tree word => tree.insert word) start

end WordTree

end PegGrammar.Pattern
