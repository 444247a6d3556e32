import PegGrammar.Pattern.Reader
import PegGrammar.Pattern.Matching
import PegGrammar.Pattern.Prefixes
import PegGrammar.Pattern.Layout
import PegGrammar.Cursor.Basic

/-!
# Patterns

A pattern is tried where a cursor stands. One that depends on what stands before it is matched in the
whole text; any other in what is left, as if that were the whole text, with the start of the text put
in front of it. The text of a pattern is put between `(?s:` and `)` as it is, so a pattern with a
closing parenthesis of its own reaches out of them: then a match may begin behind the cursor, and the
cursor moves on by the length of what was matched.
-/

namespace PegGrammar

/-- A pattern that was read. -/
structure Pattern where
  source : String
  /-- Whether a match depends on what stands before it. -/
  looksBehind : Bool
  tree : Pattern.Node
  machine : Pattern.Machine
  /-- The machine is that of the tree. -/
  machine_eq : machine = tree.machine

namespace Pattern

/-- A pattern in which a dot matches line feeds too. -/
def dotAll (source : String) : String := "(?s:" ++ source ++ ")"

/-- A pattern that matches only at the start of a text. -/
def anchored (source : String) : String := "^" ++ dotAll source

def tree? (text : String) : Option Node := (parse? .full text).filter Node.fits

def ofString? (source : String) : Option Pattern := do
  let looksBehind := ((parse? .classic (dotAll source)).map Node.looksBehind).getD false
  let tree ← tree? (if looksBehind then dotAll source else anchored source)
  some ⟨source, looksBehind, tree, tree.machine, rfl⟩

/-- The leftmost match in a text. A pattern that begins with the start of the text is tried only
there. -/
def find? (pattern : Pattern) (text : List Char) : Option (Place × Place) :=
  let p := Place.start text
  if pattern.tree.startsAtText then (pattern.machine.matchAt? p).map (fun stop => (p, stop))
  else pattern.machine.findFrom? p

/-- The text that a pattern matches at a cursor, and the cursor behind it. -/
def match? (pattern : Pattern) (cursor : Cursor) : Option (String × Cursor) :=
  if pattern.looksBehind then
    (pattern.machine.matchAt? cursor.place).map (fun stop =>
      (cursor.place.textTo stop.offset, cursor.advance (stop.offset - cursor.position)))
  else
    (pattern.find? cursor.remaining).map (fun (start, stop) =>
      (start.textTo stop.offset, cursor.advance (stop.offset - start.offset)))

/-- The texts that the matches of a pattern start with, if that is known of all of them. -/
def startsOf? (source : String) : Option (List String) :=
  (parse? .classic (anchored source)).bind Node.prefixes?

end Pattern

end PegGrammar
