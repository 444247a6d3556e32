import PegGrammar.Rule.Basic
import PegGrammar.Json.Quoted

/-!
# Printing rules

A rule is shown as compact JSON: texts as strings, items and entries divided by a comma and a
space, and a key from its value by a colon and a space.
-/

namespace PegGrammar.Rule

mutual

def chars : Rule → List Char
  | .text s => Json.quote s
  | .list items => '[' :: charsOfItems true items ++ [']']
  | .map entries => '{' :: charsOfEntries true entries ++ ['}']

/-- The items of a list, each but the first behind a divider. -/
def charsOfItems (first : Bool) : List Rule → List Char
  | [] => []
  | item :: items =>
    (if first then [] else [',', ' ']) ++ item.chars ++ charsOfItems false items

/-- The entries of a map, each but the first behind a divider. -/
def charsOfEntries (first : Bool) : List (String × Rule) → List Char
  | [] => []
  | (key, value) :: entries =>
    (if first then [] else [',', ' ']) ++ Json.quote key ++ [':', ' '] ++ value.chars
      ++ charsOfEntries false entries

end

def render (r : Rule) : String := String.ofList r.chars

end PegGrammar.Rule
