import PegGrammar.Token.Basic
import PegGrammar.Text.Shown

/-!
# Tokens shown in messages

A chain is shown token inside token: each shows the rest of its chain and its children as fields.
-/

namespace PegGrammar.Token

/-- What may be absent, in a message. -/
def shownOption : Option String → String
  | none => "None"
  | some s => "Some(" ++ s ++ ")"

mutual

/-- A token with the rest of its chain already shown. -/
def shownWith (next : Option String) : Token → String
  | ⟨piece, children⟩ =>
    "Token \x7b kind: " ++ Text.shown piece.kind ++ ", value: " ++ Text.shown piece.value ++ ", span: "
      ++ toString piece.start ++ ".." ++ toString piece.stop ++ ", next: " ++ shownOption next
      ++ ", children: " ++ shownOption (shownChain? children) ++ " \x7d"

/-- A chain, unless it is empty. -/
def shownChain? : Chain → Option String
  | [] => none
  | token :: chain => some (token.shownWith (shownChain? chain))

end

/-- The result of a match as a message shows it. -/
def shownOutcome : Option Chain → String
  | none => "Err(NoMatch)"
  | some chain =>
    match shownChain? chain with
    | none => "Ok(Empty)"
    | some text => "Ok(Token(" ++ text ++ "))"

end PegGrammar.Token
