import PegGrammar.Number.Digits

/-!
# Lexemes of a TOML text

A text is cut into marks, bare words, strings, runs of blanks and ends of lines. Blanks are kept,
because a number or a date may not be broken by them. A comment reaches to the end of its line and is
dropped: wherever one may stand, the end of a line may stand too.
-/

namespace PegGrammar.Toml

/-- A piece of a TOML text. -/
inductive Lexeme where
  | newline
  /-- A single space. -/
  | space
  /-- Any other run of spaces and tabs. -/
  | blanks
  | equals
  | period
  | comma
  | colon
  | plus
  | openMap
  | closeMap
  | openList
  | closeList
  /-- Letters, digits, hyphens and underscores. -/
  | word (text : String)
  /-- A string; the flag says whether it was written in three marks and may span lines. -/
  | string (text : String) (block : Bool)
  deriving DecidableEq, Repr

def isBlank (c : Char) : Bool := c = ' ' ∨ c = '\t'

def isWordChar (c : Char) : Bool := c.isAlphanum ∨ c = '-' ∨ c = '_'

def isCommentChar (c : Char) : Bool := c = '\t' ∨ 0x20 ≤ c.toNat

/-- Whether a character may stand in a string as itself. -/
def isPlain (c : Char) : Bool := isCommentChar c ∧ c ≠ '\x7f'

/-! ### Strings -/

/-- The character of so many hexadecimal digits, and what follows them. -/
def codeEscape? (digits : Nat) (cs : List Char) : Option (Char × List Char) := do
  if cs.length < digits then none
  else some (← Digits.hexChar? (cs.take digits), cs.drop digits)

/-- The character that an escape stands for, behind its backslash, and what follows it. -/
def escape? : List Char → Option (Char × List Char)
  | [] => none
  | c :: cs =>
    match c with
    | '"' => some ('"', cs)
    | '\\' => some ('\\', cs)
    | 'b' => some ('\x08', cs)
    | 'f' => some ('\x0c', cs)
    | 'n' => some ('\n', cs)
    | 'r' => some ('\r', cs)
    | 't' => some ('\t', cs)
    | 'u' => codeEscape? 4 cs
    | 'U' => codeEscape? 8 cs
    | _ => none

/-- What follows a backslash that ends a line: the blanks and ends of lines behind it are skipped. -/
def lineEnd? (cs : List Char) : Option (List Char) :=
  match cs.dropWhile isBlank with
  | '\n' :: rest => some (rest.dropWhile (fun c => isBlank c ∨ c = '\n'))
  | _ => none

/-- The rest of a string that ends with its line. Only between quotation marks does a backslash
escape. Each step takes at least one character. -/
def scanLine (mark : Char) : Nat → List Char → List Char → Option (String × List Char)
  | 0, _, _ | _, _, [] => none
  | steps + 1, taken, c :: cs =>
    if c = mark then some (String.ofList taken.reverse, cs)
    else if c = '\\' ∧ mark = '"' then
      (escape? cs).bind (fun (d, rest) => scanLine mark steps (d :: taken) rest)
    else if isPlain c then scanLine mark steps (c :: taken) cs
    else none

/-- The end of a string of three marks, behind them: up to two more marks belong to the string. -/
def closeBlock (mark : Char) (taken cs : List Char) : String × List Char :=
  let extra := (cs.take 2).takeWhile (· = mark)
  (String.ofList (taken.reverse ++ extra), cs.drop extra.length)

def scanBlock (mark : Char) : Nat → List Char → List Char → Option (String × List Char)
  | 0, _, _ | _, _, [] => none
  | steps + 1, taken, c :: cs =>
    if c = mark then
      match cs with
      | d :: e :: rest =>
        if d = mark ∧ e = mark then some (closeBlock mark taken rest)
        else scanBlock mark steps (c :: taken) cs
      | _ => none
    else if c = '\\' ∧ mark = '"' then
      match lineEnd? cs with
      | some rest => scanBlock mark steps taken rest
      | none => (escape? cs).bind (fun (d, rest) => scanBlock mark steps (d :: taken) rest)
    else if isPlain c ∨ c = '\n' then scanBlock mark steps (c :: taken) cs
    else none

/-- A string behind its first mark. An end of line right behind three marks is no part of it. -/
def stringLexeme? (mark : Char) (cs : List Char) : Option (Lexeme × List Char) :=
  match cs with
  | c :: d :: rest =>
    if c = mark ∧ d = mark then
      let rest := match rest with
        | '\n' :: rest => rest
        | _ => rest
      (scanBlock mark rest.length [] rest).map (fun (text, rest) => (.string text true, rest))
    else (scanLine mark cs.length [] cs).map (fun (text, rest) => (.string text false, rest))
  | _ => (scanLine mark cs.length [] cs).map (fun (text, rest) => (.string text false, rest))

/-! ### Lexemes -/

/-- The lexeme that starts with a character, and what follows it. -/
def lexemeFrom? (c : Char) (cs : List Char) : Option (Lexeme × List Char) :=
  match c with
  | '\n' => some (.newline, cs)
  | '=' => some (.equals, cs)
  | '.' => some (.period, cs)
  | ',' => some (.comma, cs)
  | ':' => some (.colon, cs)
  | '+' => some (.plus, cs)
  | '{' => some (.openMap, cs)
  | '}' => some (.closeMap, cs)
  | '[' => some (.openList, cs)
  | ']' => some (.closeList, cs)
  | '"' => stringLexeme? '"' cs
  | '\'' => stringLexeme? '\'' cs
  | _ =>
    if isBlank c then
      let rest := cs.dropWhile isBlank
      some (if c = ' ' ∧ rest.length = cs.length then .space else .blanks, rest)
    else if isWordChar c then
      some (.word (String.ofList (c :: cs.takeWhile isWordChar)), cs.dropWhile isWordChar)
    else none

/-- The lexemes of the characters, of which there are at most as many. -/
def lexemesIn? : Nat → List Char → Option (List Lexeme)
  | 0, _ | _, [] => some []
  | steps + 1, c :: cs =>
    if c = '#' then lexemesIn? steps (cs.dropWhile isCommentChar)
    else do
      let (lexeme, rest) ← lexemeFrom? c cs
      some (lexeme :: (← lexemesIn? steps rest))

/-- A return in front of an end of line is no part of a text. -/
def foldLines : List Char → List Char
  | '\r' :: '\n' :: cs => '\n' :: foldLines cs
  | c :: cs => c :: foldLines cs
  | [] => []

/-- The lexemes of a text, which may start with a byte order mark. -/
def lexemes? (text : String) : Option (List Lexeme) :=
  let cs := match foldLines text.toList with
    | '\uFEFF' :: cs => cs
    | cs => cs
  lexemesIn? cs.length cs

end PegGrammar.Toml
