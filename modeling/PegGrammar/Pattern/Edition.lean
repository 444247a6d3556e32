import PegGrammar.Unicode.Script
import PegGrammar.Unicode.Break
import PegGrammar.Unicode.Folding

/-!
# Editions of the notation

Patterns are read twice. Matching uses the full notation. The analysis that finds out what a pattern
can start with and whether it looks behind uses an older, smaller notation, and knows nothing about a
pattern that this notation does not have. An edition is a list of the points where the two differ.
-/

namespace PegGrammar.Pattern

/-- What a notation allows. -/
structure Edition where
  /-- `\<`, `\>` and the braced kinds of `\b`. -/
  wordSides : Bool
  /-- A group named without a `P`. -/
  shortNames : Bool
  /-- The flag under which a carriage return ends lines. -/
  crlfFlag : Bool
  /-- Escapes of marks that mean nothing by themselves. -/
  idleEscapes : Bool
  /-- Names of groups with letters and digits of all scripts. -/
  anyLetterNames : Bool
  /-- Sets without members. -/
  emptySets : Bool
  /-- Characters beyond ASCII where Unicode is off. -/
  wideLiterals : Bool
  /-- The absence of a word edge where Unicode is off. -/
  asciiNoWordEdge : Bool
  /-- The short names `sc` and `lc` of categories, which are names of other properties too. -/
  sharedNames : Bool
  /-- A property that does not have a value, by `!=`. The smaller notation takes this for `=`. -/
  unequalValues : Bool
  /-- The version of the character data. -/
  unicode : Unicode.Version
  deriving DecidableEq, Repr

def Edition.full : Edition :=
  ⟨true, true, true, true, true, true, true, true, true, true, .v16⟩

def Edition.classic : Edition :=
  ⟨false, false, false, false, false, false, false, false, false, false, .v15⟩

/-- The flags in force at a place of a pattern. -/
structure Flags where
  /-- Letters match in both cases. -/
  caseless : Bool
  /-- `^` and `$` match at lines. -/
  multiLine : Bool
  /-- A dot matches line feeds too. -/
  dotAll : Bool
  /-- Repetitions prefer fewer, unless marked. -/
  swapGreed : Bool
  /-- Characters and classes are those of Unicode. -/
  unicode : Bool
  /-- A carriage return ends lines. -/
  crlf : Bool
  /-- Blanks and comments in the pattern are dropped. -/
  spaced : Bool
  deriving DecidableEq, Repr

def Flags.initial : Flags := ⟨false, false, false, false, true, false, false⟩

def Flags.set (f : Flags) (edition : Edition) (flag : Char) (value : Bool) : Option Flags :=
  match flag with
  | 'i' => some { f with caseless := value }
  | 'm' => some { f with multiLine := value }
  | 's' => some { f with dotAll := value }
  | 'U' => some { f with swapGreed := value }
  | 'u' => some { f with unicode := value }
  | 'x' => some { f with spaced := value }
  | 'R' => if edition.crlfFlag then some { f with crlf := value } else none
  | _ => none

/-! ### Sets by name -/

def asciiClass? (name : String) : Option CodeSet :=
  let ranges (rs : List (Char × Char)) : CodeSet :=
    .unions (rs.map (fun (low, high) => .range low.toNat high.toNat))
  match name with
  | "alnum" => some (ranges [('0', '9'), ('A', 'Z'), ('a', 'z')])
  | "alpha" => some (ranges [('A', 'Z'), ('a', 'z')])
  | "ascii" => some (.range 0 127)
  | "blank" => some (ranges [('\t', '\t'), (' ', ' ')])
  | "cntrl" => some ((CodeSet.range 0 31).union (.single 127))
  | "digit" => some (ranges [('0', '9')])
  | "graph" => some (ranges [('!', '~')])
  | "lower" => some (ranges [('a', 'z')])
  | "print" => some (ranges [(' ', '~')])
  | "punct" => some (.unions [.range 33 47, .range 58 64, .range 91 96, .range 123 126])
  | "space" => some ((CodeSet.range 9 13).union (.single 32))
  | "upper" => some (ranges [('A', 'Z')])
  | "word" => some (ranges [('0', '9'), ('A', 'Z'), ('_', '_'), ('a', 'z')])
  | "xdigit" => some (ranges [('0', '9'), ('A', 'F'), ('a', 'f')])
  | _ => none

/-- The ASCII members of the class `\d`, `\s` or `\w`. -/
def asciiShort (c : Char) : CodeSet :=
  (asciiClass? (if c = 'd' then "digit" else if c = 's' then "space" else "word")).getD .empty

/-- The members of the class `\d`, `\s` or `\w`. -/
def unicodeShort (v : Unicode.Version) (c : Char) : CodeSet :=
  if c = 'd' then Unicode.digits v
  else if c = 's' then Unicode.whiteSpace
  else Unicode.wordCharacters v

/-- A property name without its divisions, in lower case, and without `is` in front. -/
def plainName (name : String) : String :=
  let cs := name.toList
  let (marked, body) := match cs with
    | i :: s :: rest =>
      if (i = 'i' ∨ i = 'I') ∧ (s = 's' ∨ s = 'S') then (true, rest) else (false, cs)
    | _ => (false, cs)
  let plain := (body.filter (fun c => c ≠ ' ' ∧ c ≠ '_' ∧ c ≠ '-' ∧ c.toNat < 128)).map Char.toLower
  if marked ∧ plain = ['c'] then "isc" else String.ofList plain

/-- The set of a name that stands alone: a property, a category or a script. Short names that are both
a property and a category are categories. -/
def namedSet? (edition : Edition) (name : String) : Option CodeSet :=
  let plain := plainName name
  let v := edition.unicode
  if (plain = "sc" ∨ plain = "lc") ∧ !edition.sharedNames then none
  else
    let property := if plain = "cf" ∨ plain = "sc" then none else Unicode.property? v plain
    property <|> Unicode.category? v plain <|> Unicode.script? v plain

/-- The set of the characters whose property has a value. -/
def valuedSet? (v : Unicode.Version) (property value : String) : Option CodeSet :=
  let value := plainName value
  match plainName property with
  | "gc" | "generalcategory" => Unicode.category? v value
  | "sc" | "script" => Unicode.script? v value
  | "scx" | "scriptextensions" => Unicode.scriptExtension? v value
  | "age" => Unicode.age? v value
  | "gcb" | "graphemeclusterbreak" => Unicode.graphemeBreak? v value
  | "wb" | "wordbreak" => Unicode.wordBreak? v value
  | "sb" | "sentencebreak" => Unicode.sentenceBreak? v value
  | _ => none

/-! ### Case -/

/-- A set with the other case of its ASCII letters. -/
def foldAscii (s : CodeSet) : CodeSet :=
  let shifted (low high : Nat) (shift : Nat → Nat) : CodeSet :=
    .unions ((s.inter (.range low high)).ranges.map (fun (a, b) => .range (shift a) (shift b)))
  .unions [s, shifted 65 90 (· + 32), shifted 97 122 (· - 32)]

/-- A set as the flags want it: with the other case of its letters, and negated. Without Unicode, a
negated set would match bytes that are no characters, which is refused. -/
def finishSet (v : Unicode.Version) (flags : Flags) (negated : Bool) (s : CodeSet) : Option CodeSet :=
  let folded :=
    if !flags.caseless then s else if flags.unicode then s.foldCase v else foldAscii s
  if !negated then some folded else if flags.unicode then some folded.compl else none

end PegGrammar.Pattern
