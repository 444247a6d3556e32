import PegGrammar.Toml.Number

/-!
# Sections of a TOML text

A text is a list of sections. The first has no header; each other one starts with a header, which
names the table, or an element of an array of tables, that the entries below it belong to. Every
reading function takes lexemes from the front and gives what it leaves. Those that go into values
count their steps, of which each takes at least every other time a lexeme.
-/

namespace PegGrammar.Toml

/-- Some entries, and the names of the tables on the way to the one that they belong to. -/
structure Section where
  path : List String
  /-- Whether the entries are an element of an array of tables. -/
  array : Bool
  entries : List Entry
  deriving Inhabited

/-! ### Keys -/

def skipBlanks : List Lexeme → List Lexeme
  | .space :: rest | .blanks :: rest => rest
  | rest => rest

def skipLines (rest : List Lexeme) : List Lexeme :=
  rest.dropWhile (fun lexeme => lexeme = .space ∨ lexeme = .blanks ∨ lexeme = .newline)

def lineEnds? (rest : List Lexeme) : Option (List Lexeme) :=
  match skipBlanks rest with
  | [] => some []
  | .newline :: rest => some rest
  | _ => none

/-- One part of a key: a bare word, or a string that cannot span lines. -/
def key? : List Lexeme → Option (String × List Lexeme)
  | .word text :: rest | .string text false :: rest => some (text, rest)
  | _ => none

/-- A key of one part or more, with blanks around the points and behind the last part. -/
def dottedKey? : Nat → List Lexeme → Option (List String × List Lexeme)
  | 0, _ => none
  | steps + 1, rest => do
    let (key, rest) ← key? rest
    match skipBlanks rest with
    | .period :: rest =>
      let (keys, rest) ← dottedKey? steps (skipBlanks rest)
      some (key :: keys, rest)
    | rest => some ([key], rest)

/-! ### Values -/

/-- Skips the equals sign of an entry and the blanks behind it. -/
def equals? : List Lexeme → Option (List Lexeme)
  | .equals :: rest => some (skipBlanks rest)
  | _ => none

mutual

def value? : Nat → List Lexeme → Option (Value × List Lexeme)
  | 0, _ => none
  | steps + 1, rest =>
    match rest with
    | .string text _ :: rest => some (.string text, rest)
    | .word text :: rest => wordValue? text rest
    | .plus :: .word text :: rest => number? text rest
    | .openList :: rest => do
      let (items, rest) ← items? steps rest
      some (.array items, rest)
    | .openMap :: rest =>
      match skipBlanks rest with
      | .closeMap :: rest => some (.table [], rest)
      | rest => do
        let (entries, rest) ← entries? steps [] rest
        some (.table entries, rest)
    | _ => none

/-- The items of an array and its end, with blanks and ends of lines around them. A comma may stand
behind the last item. -/
def items? : Nat → List Lexeme → Option (List Value × List Lexeme)
  | 0, _ => none
  | steps + 1, rest =>
    match skipLines rest with
    | .closeList :: rest => some ([], rest)
    | rest => do
      let (item, rest) ← value? steps rest
      match skipLines rest with
      | .closeList :: rest => some ([item], rest)
      | .comma :: rest =>
        let (items, rest) ← items? steps rest
        some (item :: items, rest)
      | _ => none

/-- The entries of a table in braces and its end, on one line. -/
def entries? : Nat → List Entry → List Lexeme → Option (List Entry × List Lexeme)
  | 0, _, _ => none
  | steps + 1, taken, rest => do
    let (keys, rest) ← dottedKey? steps rest
    let (value, rest) ← value? steps (← equals? rest)
    let taken ← insertDotted value keys taken
    match skipBlanks rest with
    | .closeMap :: rest => some (taken, rest)
    | .comma :: rest => entries? steps taken (skipBlanks rest)
    | _ => none

end

/-! ### Lines -/

/-- The path of a header behind its opening mark or marks, and the end of its line. -/
def header? (steps : Nat) (array : Bool) (rest : List Lexeme) :
    Option (Section × List Lexeme) := do
  let (path, rest) ← dottedKey? steps (skipBlanks rest)
  match array, rest with
  | false, .closeList :: rest => some (⟨path, false, []⟩, ← lineEnds? rest)
  | true, .closeList :: .closeList :: rest => some (⟨path, true, []⟩, ← lineEnds? rest)
  | _, _ => none

/-- The sections, behind those that were read and the one whose lines are being read. -/
def sections? : Nat → List Section → Section → List Lexeme → Option (List Section)
  | 0, _, _, _ => none
  | steps + 1, done, current, rest =>
    match skipLines rest with
    | [] => some (done.reverse ++ [current])
    | .openList :: .openList :: rest => do
      let (next, rest) ← header? steps true rest
      sections? steps (current :: done) next rest
    | .openList :: rest => do
      let (next, rest) ← header? steps false rest
      sections? steps (current :: done) next rest
    | rest => do
      let (keys, rest) ← dottedKey? steps rest
      let (value, rest) ← value? steps (← equals? rest)
      let entries ← insertDotted value keys current.entries
      sections? steps done { current with entries } (← lineEnds? rest)

/-- The sections of a text, the one without a header in front. -/
def sectionsOf? (text : String) : Option (List Section) := do
  let lexemes ← lexemes? text
  sections? (2 * lexemes.length + 2) [] ⟨[], false, []⟩ lexemes

end PegGrammar.Toml
