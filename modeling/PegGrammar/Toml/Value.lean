import PegGrammar.Rule.Basic

/-!
# Values of a TOML text

Values as they are written, and the rules that they stand for. A table that was written with dotted
keys is told apart from one in braces, because only the former may be added to by further keys. The
entries of a table stand in the order in which they were written, and a table with two entries of one
key is no rule.
-/

namespace PegGrammar.Toml

/-- A value of a TOML text. -/
inductive Value where
  | string (text : String)
  | integer (n : Int)
  /-- A number with a point or an exponent, in the fewest digits. -/
  | decimal (text : String)
  | boolean (b : Bool)
  /-- A date, a time or both, as written. -/
  | dateTime (text : String)
  | array (items : List Value)
  | table (entries : List (String × Value))
  /-- A table that dotted keys wrote. -/
  | dotted (entries : List (String × Value))
  deriving Inhabited

abbrev Entry := String × Value

/-- The key under which the text of a date or time stands. -/
def dateTimeKey : String := "$__toml_private_datetime"

/-- Puts a value under a dotted key. The tables on the way are those that dotted keys wrote before, or
new ones. -/
def insertDotted (value : Value) : List String → List Entry → Option (List Entry)
  | [], _ => none
  | [key], entries => some (entries ++ [(key, value)])
  | key :: keys, entries =>
    match entries.span (fun (k, _) => k ≠ key) with
    | (before, []) => do
      let inner ← insertDotted value keys []
      some (before ++ [(key, .dotted inner)])
    | (before, (_, .dotted inner) :: rest) => do
      let inner ← insertDotted value keys inner
      some (before ++ (key, .dotted inner) :: rest)
    | (_, _ :: _) => none

mutual

/-- The rule that a value stands for: scalars are texts. -/
def Value.toRule? : Value → Option Rule
  | .string text | .decimal text => some (.text text)
  | .integer n => some (.text (toString n))
  | .boolean b => some (.text (if b then "true" else "false"))
  | .dateTime text => some (.combinator dateTimeKey (.text text))
  | .array items => (itemsToRules? items).map Rule.list
  | .table entries | .dotted entries => (entriesToRules? entries).map Rule.map

def itemsToRules? : List Value → Option (List Rule)
  | [] => some []
  | item :: items => do
    let rule ← item.toRule?
    some (rule :: (← itemsToRules? items))

/-- The entries of a map, if no key has two values. -/
def entriesToRules? : List (String × Value) → Option (List (String × Rule))
  | [] => some []
  | (key, value) :: entries => do
    let rule ← value.toRule?
    let rules ← entriesToRules? entries
    if (rules.lookup key).isSome then none else some (Rule.insertEntry key rule rules)

end

end PegGrammar.Toml
