import PegGrammar.Rule.Keyword
import PegGrammar.Script.Basic

/-!
# Why a grammar does not compile

An error names the innermost named rule that was being compiled.
-/

namespace PegGrammar

/-- What is wrong with the shape of a rule. -/
inductive ShapeError where
  /-- A map that is no combinator, because it does not have exactly one key. -/
  | mapWithKeys (keys : List String)
  /-- A map whose only key is not reserved. -/
  | mapWithKey (key : String)
  | sequenceWithoutList
  | choiceWithoutBranches
  | literalWithoutText
  | emptyLiteral
  | regexWithoutPattern
  | scriptWithoutSource
  | propertiesWithoutMap
  | flagWithoutTruth (flag : String)
  | annotationWithoutMap (keyword : Keyword)
  | annotationWithoutValue (keyword : Keyword)
  | annotationWithoutField (keyword : Keyword) (field : String)
  | unknownField (keyword : Keyword) (field : String)
  /-- A name was given out and its definition never finished. -/
  | unfinished
  deriving DecidableEq, Repr

def ShapeError.message : ShapeError → String
  | .mapWithKeys keys =>
    "expected a combinator, found a map with keys [" ++ String.intercalate ", " keys ++ "]"
  | .mapWithKey key => "expected a combinator, found a map with key `" ++ key ++ "`"
  | .sequenceWithoutList => "`$sequence` expects a list"
  | .choiceWithoutBranches => "`$or` expects a non-empty list"
  | .literalWithoutText => "`$literal` expects a string"
  | .emptyLiteral => "literals can't be empty"
  | .regexWithoutPattern => "`$regex` expects a string or a map with a `regex` string"
  | .scriptWithoutSource => "`$script` expects the script's source"
  | .propertiesWithoutMap => "`properties` of `$ast-node` must be a map"
  | .flagWithoutTruth flag => "`" ++ flag ++ "` of `$ast-prop` must be `true` or `false`"
  | .annotationWithoutMap keyword => "`" ++ keyword.key ++ "` expects a map"
  | .annotationWithoutValue keyword => "`" ++ keyword.key ++ "` needs a `value`"
  | .annotationWithoutField keyword field =>
    "`" ++ keyword.key ++ "` needs a string `" ++ field ++ "`"
  | .unknownField keyword field => "unknown field `" ++ field ++ "` in `" ++ keyword.key ++ "`"
  | .unfinished => "rule was referenced but never finished compiling"

/-- Why a grammar does not compile. -/
inductive CompileError where
  /-- The root is no map. -/
  | notAGrammar
  | shape (rule : String) (reason : ShapeError)
  /-- A pattern that cannot be read. -/
  | regex (rule pattern : String)
  /-- A text that names neither a rule nor a built-in. -/
  | unknownRule (rule name : String)
  | unknownCombinator (rule keyword : String)
  | unknownStart (name : String)
  | script (rule source : String) (reason : ScriptError)
  /-- The rule without a name contains itself, so to put it in place would never end. A compiler has to count how many
  rules it is inside of to say so. One that only calls itself does not come to an answer here: its stack overflows. So
  where two compilations are compared and both give this error, what is known is that neither gives a program. -/
  | endlessExpansion (rule : String)
  deriving DecidableEq, Repr

/-- The kinds of errors. -/
inductive CompileErrorKind where
  | grammar
  | ruleResolution
  | scriptCompile
  deriving DecidableEq, Repr

namespace CompileError

def kind : CompileError → CompileErrorKind
  | .notAGrammar | .shape _ _ | .regex _ _ | .endlessExpansion _ => .grammar
  | .unknownRule _ _ | .unknownCombinator _ _ | .unknownStart _ => .ruleResolution
  | .script _ _ _ => .scriptCompile

/-- The message of an error. What is wrong with a pattern is not said. -/
def message : CompileError → String
  | .notAGrammar => "a grammar must be a map of named rules"
  | .shape rule reason => "malformed rule in `" ++ rule ++ "`: " ++ reason.message
  | .regex rule pattern => "invalid regex " ++ Text.shown pattern ++ " in `" ++ rule ++ "`: "
  | .unknownRule rule name => "`" ++ rule ++ "` refers to unknown rule `" ++ name ++ "`"
  | .unknownCombinator rule keyword =>
    "`" ++ rule ++ "` uses unknown combinator `" ++ keyword ++ "`"
  | .unknownStart name => "no rule called `" ++ name ++ "`"
  | .script rule source reason =>
    "can't compile script " ++ Text.shown source ++ " in `" ++ rule ++ "`: " ++ reason.message
  | .endlessExpansion rule => "malformed rule in `" ++ rule ++ "`: it contains itself"

def hasSource : CompileError → Bool
  | .regex _ _ | .script _ _ _ => true
  | _ => false

end CompileError

end PegGrammar
