import PegGrammar.Text.Shown

/-!
# JSON values

Values that scripts can be given. A number is kept as its text.
-/

namespace PegGrammar.Json

/-- A JSON value. -/
inductive Value where
  | null
  | bool (b : Bool)
  | number (text : String)
  | string (s : String)
  | array (items : List Value)
  | object (entries : List (String × Value))
  deriving Inhabited

namespace Value

mutual

def shown : Value → String
  | .null => "Null"
  | .bool b => "Bool(" ++ toString b ++ ")"
  | .number text => "Number(" ++ text ++ ")"
  | .string s => "String(" ++ Text.shown s ++ ")"
  | .array items => "Array [" ++ shownItems true items ++ "]"
  | .object entries => "Object \x7b" ++ shownEntries true entries ++ "\x7d"

/-- The items of an array, each but the first behind a divider. -/
def shownItems (first : Bool) : List Value → String
  | [] => ""
  | item :: items => (if first then "" else ", ") ++ item.shown ++ shownItems false items

/-- The entries of an object, each but the first behind a divider. -/
def shownEntries (first : Bool) : List (String × Value) → String
  | [] => ""
  | (key, value) :: entries =>
    (if first then "" else ", ") ++ Text.shown key ++ ": " ++ value.shown
      ++ shownEntries false entries

end

def asString? : Value → Option String
  | .string s => some s
  | _ => none

end Value

end PegGrammar.Json
