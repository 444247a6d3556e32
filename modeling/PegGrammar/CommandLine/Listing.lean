import PegGrammar.Cursor.Basic
import PegGrammar.Text.Shown
import PegGrammar.Token.Walk

/-!
# Listing tokens

One line for each token: its line and column, its kind, indented by its depth, and its value.
-/

namespace PegGrammar.CommandLine

def shownPlace (source : Cursor) (offset : Nat) : String :=
  let (line, column) := source.lineCol offset
  toString line ++ ":" ++ toString column

def tokenLine (source : Cursor) (depth : Nat) (piece : Piece) : String :=
  shownPlace source piece.start ++ "\t" ++ String.ofList (List.replicate (2 * depth) ' ')
    ++ Text.shownBare piece.kind ++ "\t" ++ Text.shown piece.value ++ "\n"

def listing (source : Cursor) (chain : Chain) : String :=
  String.join ((Token.walk chain).map (fun (depth, piece) => tokenLine source depth piece))

end PegGrammar.CommandLine
