import PegGrammar.Config.Basic
import PegGrammar.File.Basic
import PegGrammar.Toml.Document

/-!
# Loading options

Options are the entries of a TOML text. An option that is left out has its default; an entry that is
no option, or an option that is given twice, is refused.
-/

namespace PegGrammar

/-- Why options do not load. -/
inductive ConfigError where
  | unreadable (reason : FileError)
  | malformed
  deriving DecidableEq, Repr

/-- The message of an error. What is wrong with a text is not said. -/
def ConfigError.message : ConfigError → String
  | .unreadable reason => "can't read config: " ++ reason.message
  | .malformed => "invalid config: "

namespace Config

def set? (config : Config) (key : String) (value : Toml.Value) : Option Config :=
  match key, value with
  | "prune-alternatives", .boolean b => some { config with pruneAlternatives := b }
  | "bare-literals", .boolean b => some { config with bareLiterals := b }
  | "max-depth", .integer (.ofNat n) => some { config with maxDepth := n }
  | "trace", .boolean b => some { config with trace := b }
  | "parse-tree", .boolean b => some { config with parseTree := b }
  | _, _ => none

def ofToml? (text : String) : Option Config := do
  let entries ← Toml.documentOf? text
  if (entries.map Prod.fst).eraseDups.length < entries.length then none
  else entries.foldlM (fun config (key, value) => config.set? key value) default

def ofFile (read : FileReader) (path : String) : Except ConfigError Config :=
  match read path with
  | .error reason => .error (.unreadable reason)
  | .ok text =>
    match ofToml? text with
    | some config => .ok config
    | none => .error .malformed

end Config

end PegGrammar
