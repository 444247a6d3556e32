import PegGrammar.Json.Number
import PegGrammar.Text.Width

/-!
# Lexemes of a JSON text

A text is cut into marks, words, numbers and strings; blanks between them are dropped. A lexeme that
cannot be read ends the list: what it was going to be is kept with the reason, because a reader that
does not expect such a lexeme there refuses it for its place and not for its contents.
-/

namespace PegGrammar.Json

/-- A piece of a JSON text. -/
inductive Lexeme where
  | openList
  | closeList
  | openMap
  | closeMap
  | comma
  | colon
  /-- A number, `true` or `false`, as the text that it loads as. -/
  | scalar (text : String)
  | null
  | string (text : String)
  /-- A string that cannot be read. -/
  | badString (reason : Error)
  /-- A word or number that cannot be read. -/
  | badScalar (reason : Error)
  /-- A character that starts no lexeme. -/
  | stray
  deriving DecidableEq, Repr

def isBlank (c : Char) : Bool := c = ' ' ∨ c = '\n' ∨ c = '\t' ∨ c = '\r'

/-! ### Strings -/

def hexQuad? (a b c d : Char) : Option Nat := do
  let a ← Digits.value? 16 a
  let b ← Digits.value? 16 b
  let c ← Digits.value? 16 c
  let d ← Digits.value? 16 d
  some (((a * 16 + b) * 16 + c) * 16 + d)

/-- Why an escape by code that lacks four digits is refused: the text ends if fewer than four bytes
are left of it. -/
def shortEscape (rest : List Char) : Error :=
  if byteLength rest < 4 then .ended else .malformed

/-- Whether a code is the first half of a pair. -/
def isHighHalf (n : Nat) : Bool := 0xD800 ≤ n ∧ n < 0xDC00

/-- Whether a code is the second half of a pair. -/
def isLowHalf (n : Nat) : Bool := 0xDC00 ≤ n ∧ n < 0xE000

def joinHalves (high low : Nat) : Char :=
  Char.ofNat ((high - 0xD800) * 0x400 + (low - 0xDC00) + 0x10000)

def unescape? (c : Char) : Option Char :=
  match c with
  | '"' => some '"'
  | '\\' => some '\\'
  | '/' => some '/'
  | 'b' => some '\x08'
  | 'f' => some '\x0c'
  | 'n' => some '\n'
  | 'r' => some '\r'
  | 't' => some '\t'
  | _ => none

/-- The contents of a string behind its opening mark, and what follows its closing mark. -/
def scanString (taken : List Char) : List Char → Except Error (String × List Char)
  | [] => .error .ended
  | '"' :: rest => .ok (String.ofList taken.reverse, rest)
  | '\\' :: 'u' :: a :: b :: c :: d :: rest =>
    match hexQuad? a b c d with
    | none => .error (shortEscape (a :: b :: c :: d :: rest))
    | some n =>
      if isLowHalf n then .error .malformed
      else if isHighHalf n then
        match rest with
        | [] | ['\\'] => .error .ended
        | '\\' :: 'u' :: e :: f :: g :: h :: rest =>
          match hexQuad? e f g h with
          | none => .error (shortEscape (e :: f :: g :: h :: rest))
          | some m =>
            if isLowHalf m then scanString (joinHalves n m :: taken) rest
            else .error .malformed
        | '\\' :: 'u' :: rest => .error (shortEscape rest)
        | _ => .error .malformed
      else scanString (Char.ofNat n :: taken) rest
  | '\\' :: 'u' :: rest => .error (shortEscape rest)
  | '\\' :: [] => .error .ended
  | '\\' :: c :: rest =>
    match unescape? c with
    | some d => scanString (d :: taken) rest
    | none => .error .malformed
  | c :: rest => if c.toNat < 0x20 then .error .malformed else scanString (c :: taken) rest

/-! ### Words -/

/-- Reads the letters of a word; the text may end inside of it. -/
def scanWord : List Char → List Char → Except Error (List Char)
  | [], cs => .ok cs
  | _ :: _, [] => .error .ended
  | w :: ws, c :: cs => if w = c then scanWord ws cs else .error .malformed

/-! ### Lexemes -/

def scalarOf (scan : Except Error (Lexeme × List Char)) : Lexeme × List Char :=
  match scan with
  | .ok found => found
  | .error reason => (.badScalar reason, [])

/-- The word that stands for `lexeme`, behind its first letter. -/
def wordLexeme (letters : List Char) (lexeme : Lexeme) (rest : List Char) : Lexeme × List Char :=
  scalarOf ((scanWord letters rest).map (fun rest => (lexeme, rest)))

def numberLexeme (negative : Bool) (cs : List Char) : Lexeme × List Char :=
  scalarOf (do
    let (numeral, rest) ← Numeral.scan negative cs
    match numeral.text? with
    | some text => .ok (.scalar text, rest)
    | none => .error .malformed)

/-- The lexeme that starts with a character, and what follows it. -/
def lexemeFrom (c : Char) (rest : List Char) : Lexeme × List Char :=
  match c with
  | '[' => (.openList, rest)
  | ']' => (.closeList, rest)
  | '{' => (.openMap, rest)
  | '}' => (.closeMap, rest)
  | ',' => (.comma, rest)
  | ':' => (.colon, rest)
  | 't' => wordLexeme ['r', 'u', 'e'] (.scalar "true") rest
  | 'f' => wordLexeme ['a', 'l', 's', 'e'] (.scalar "false") rest
  | 'n' => wordLexeme ['u', 'l', 'l'] .null rest
  | '"' =>
    match scanString [] rest with
    | .ok (text, rest) => (.string text, rest)
    | .error reason => (.badString reason, [])
  | '-' => numberLexeme true rest
  | _ => if c.isDigit then numberLexeme false (c :: rest) else (.stray, [])

/-- The lexemes of a text. Each takes at least one character, so as many steps as there are
characters suffice. -/
def lexemesIn : Nat → List Char → List Lexeme
  | 0, _ => []
  | _ + 1, [] => []
  | steps + 1, c :: cs =>
    if isBlank c then lexemesIn steps cs
    else
      let (lexeme, rest) := lexemeFrom c cs
      lexeme :: lexemesIn steps rest

def lexemes (text : List Char) : List Lexeme := lexemesIn text.length text

end PegGrammar.Json
