import PegGrammar.Script.Basic

/-!
# Stock scripts

Small scripts that show what a script may do: take a run of characters, move without taking anything,
go back, build a chain or a node, open and close blocks, read a binding, and fail after moving.
-/

namespace PegGrammar.Script

/-- The width of the characters in front for which a test holds. -/
def runWidth (keep : Char → Bool) (cursor : Cursor) : Nat :=
  byteLength (cursor.remaining.takeWhile keep)

/-- Takes the longest run of characters for which a test holds, at least one, as one token. -/
def takeRun (kind : String) (keep : Char → Bool) (cursor : Cursor) : ScriptResult :=
  let width := runWidth keep cursor
  if width = 0 then (.error .rejected, cursor)
  else
    let start := cursor.position
    let stop := start + width
    (.ok [.leaf kind (cursor.textBetween start stop) start stop], cursor.advance width)

def move (cursor : Cursor) : ScriptResult := (.ok [], cursor)

/-- The tokens of the next two bytes, one each, and the offset behind them. -/
def pairTokens (cursor : Cursor) : Chain × Cursor :=
  let start := cursor.position
  let middle := (cursor.advance 1).position
  let moved := (cursor.advance 1).advance 1
  ([.leaf "first" (cursor.textBetween start middle) start middle,
    .leaf "second" (cursor.textBetween middle moved.position) middle moved.position], moved)

/-- Takes the text that is bound to `word`. -/
def takeWord (bindings : Bindings) (cursor : Cursor) : ScriptResult :=
  match (bindings.lookup "word").bind Json.Value.asString? with
  | none => (.error (.failed "no word bound"), cursor)
  | some word =>
    match cursor.eat? word with
    | some moved => (.ok [.leaf "word" word cursor.position moved.position], moved)
    | none => (.error .rejected, cursor)

def stock : List (String × Script) := [
  ("digits", fun _ cursor => takeRun "digits" Char.isDigit cursor),
  ("upper", fun _ cursor => takeRun "upper" Char.isUpper cursor),
  ("greedy_failure", fun _ cursor =>
    (.error (.failed "always fails"), (cursor.advance 2).pushIndent "\t")),
  ("empty", fun _ cursor => move cursor),
  ("skip", fun _ cursor => move (cursor.advance 1)),
  ("rewind", fun _ cursor => move (cursor.setPosition 0)),
  ("pair", fun _ cursor =>
    let (tokens, moved) := pairTokens cursor
    (.ok tokens, moved)),
  ("node", fun _ cursor =>
    let (tokens, moved) := pairTokens cursor
    let (start, stop) := (cursor.position, moved.position)
    (.ok [.node "node" (cursor.textBetween start stop) start stop tokens], moved)),
  ("block", fun _ cursor => move (cursor.pushIndent "  ")),
  ("unblock", fun _ cursor => move (cursor.popIndents 1)),
  ("word", takeWord)]

/-- An engine with all stock scripts and the given bindings. -/
def stockEngine (bindings : Bindings) : RegisteredScripts :=
  let registered := stock.foldl (fun engine (name, script) => (engine.register name script).2) .empty
  bindings.foldl (fun engine (name, value) => engine.bind name value) registered

end PegGrammar.Script
