import PegGrammar.File.Basic
import PegGrammar.Json.Reader
import PegGrammar.Toml.Document

/-!
# Loading grammars

A grammar is loaded from a JSON or a TOML text. A file is read before its format is told from the
extension of its name.
-/

namespace PegGrammar

/-- Why a grammar does not load. -/
inductive LoadError where
  | unreadable (path : String) (reason : FileError)
  /-- The extension names no known format. -/
  | unknownFormat (path : String)
  | json (reason : Json.Error)
  | toml
  /-- The document is no map. -/
  | notAGrammar
  deriving DecidableEq, Repr

namespace LoadError

/-- The message of an error. What is wrong with a text is said only of well-formed ones. -/
def message : LoadError → String
  | .unreadable path reason => "can't read " ++ path ++ ": " ++ reason.message
  | .unknownFormat path =>
    "can't tell the format of " ++ path ++ " (expected a .json or .toml file)"
  | .json reason => "invalid JSON grammar: " ++ reason.message?.getD ""
  | .toml => "invalid TOML grammar: "
  | .notAGrammar => "a grammar must be a map of named rules"

def hasSource : LoadError → Bool
  | .unreadable _ _ | .json _ | .toml => true
  | .unknownFormat _ | .notAGrammar => false

end LoadError

namespace Rule

def grammarOfJson (text : String) : Except LoadError Rule := do
  let rule ← (ofJson? text).mapError LoadError.json
  if rule.asMap?.isSome then .ok rule else .error .notAGrammar

def grammarOfToml (text : String) : Except LoadError Rule :=
  match ofToml? text with
  | some rule => .ok rule
  | none => .error .toml

def grammarOfFile (read : FileReader) (path : String) : Except LoadError Rule := do
  let text ← (read path).mapError (LoadError.unreadable path)
  match Path.extension? path with
  | some "json" => grammarOfJson text
  | some "toml" => grammarOfToml text
  | _ => .error (.unknownFormat path)

end Rule

end PegGrammar
