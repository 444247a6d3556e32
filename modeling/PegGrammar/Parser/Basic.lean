import PegGrammar.Pattern.Basic
import PegGrammar.Finite.BitSet

/-!
# Parsers

What rules are compiled to: a tree of combinators whose leaves match text, and in which a reference to
a named rule is the number of that rule in a table. An alternative may carry the set of the literals
that its matches start with, by their numbers in a registry.
-/

namespace PegGrammar

/-- A compiled rule. -/
inductive Parser where
  /-- Exactly this text. -/
  | literal (text : String)
  /-- What a pattern matches. -/
  | regex (pattern : Pattern)
  /-- The end of the text. -/
  | eof
  /-- The indentation of a line. -/
  | indent
  | sequence (items : List Parser)
  /-- Once or more. -/
  | repeated (body : Parser)
  /-- The first branch that matches. -/
  | choice (branches : List (Option BitSet × Parser))
  /-- Nothing, where the body matches. -/
  | ahead (body : Parser)
  /-- Nothing, where the body does not match. -/
  | notAhead (body : Parser)
  | optional (body : Parser)
  | script (source : String) (handle : Nat)
  /-- The named rule of this number. -/
  | rule (id : Nat)
  deriving Inhabited

namespace Parser

/-- The parser of a pattern, if the pattern can be read. -/
def ofPattern? (source : String) : Option Parser := (Pattern.ofString? source).map .regex

def anyOf (branches : List Parser) : Parser := .choice (branches.map (fun p => (none, p)))

mutual

/-- How many combinators lie inside of each other, not counting those of other rules. -/
def nesting : Parser → Nat
  | .literal _ | .regex _ | .eof | .indent | .script _ _ | .rule _ => 1
  | .sequence items => 1 + nestingOfItems items
  | .choice branches => 1 + nestingOfBranches branches
  | .repeated body | .ahead body | .notAhead body | .optional body => 1 + body.nesting

def nestingOfItems : List Parser → Nat
  | [] => 0
  | item :: items => max item.nesting (nestingOfItems items)

def nestingOfBranches : List (Option BitSet × Parser) → Nat
  | [] => 0
  | (_, branch) :: branches => max branch.nesting (nestingOfBranches branches)

end

end Parser

end PegGrammar
