import PegGrammar.Unicode.Property

/-!
# Blanks around a text
-/

namespace PegGrammar.Text

def isBlank (c : Char) : Bool := Unicode.whiteSpace.contains c

def trim (s : String) : String :=
  String.ofList (((s.toList.dropWhile isBlank).reverse.dropWhile isBlank).reverse)

end PegGrammar.Text
