import PegGrammar.Pattern.Edition
import PegGrammar.Pattern.Node
import PegGrammar.Number.Digits

/-!
# Parts of the notation

The pieces that a pattern is written with: blanks, numbers, escapes, names of classes. Each reads
from the front of what is left of the pattern and gives what is left behind it; a piece that is
written wrongly gives nothing.
-/

namespace PegGrammar.Pattern

def isBlank (c : Char) : Bool := Unicode.whiteSpace.contains c

/-- Drops blanks and comments, where `comment` says whether it begins inside of one. -/
def dropBlanksFrom (comment : Bool) : List Char → List Char
  | [] => []
  | c :: cs =>
    if comment then dropBlanksFrom (c ≠ '\n') cs
    else if isBlank c then dropBlanksFrom false cs
    else if c = '#' then dropBlanksFrom true cs
    else c :: cs

def dropBlanks (flags : Flags) (cs : List Char) : List Char :=
  if flags.spaced then dropBlanksFrom false cs else cs

/-- What a set or a pattern may hold at one place. -/
inductive Primitive where
  /-- A character; the flag says whether it was written as a byte of two digits. -/
  | char (c : Char) (byte : Bool)
  | set (members : CodeSet)
  | look (l : Look)

/-! ### Numbers -/

/-- The digits of a number, between which blanks may stand where the flags say so. -/
def takeDigits (flags : Flags) (keep : Char → Bool) : Nat → List Char → List Char × List Char
  | 0, cs => ([], cs)
  | _ + 1, [] => ([], [])
  | steps + 1, c :: cs =>
    if keep c then
      let (digits, rest) := takeDigits flags keep steps (dropBlanks flags cs)
      (c :: digits, rest)
    else ([], c :: cs)

def decimal? (flags : Flags) (cs : List Char) : Option Nat × List Char :=
  let (digits, rest) := takeDigits flags Char.isDigit cs.length (cs.dropWhile isBlank)
  let rest := rest.dropWhile isBlank
  let n := Digits.toNat 10 digits
  (if digits.isEmpty ∨ Nat.pow 2 32 ≤ n then none else some n, dropBlanks flags rest)

/-- The character of a code in hexadecimal digits, of which there is at least one. -/
def charOfHex? (digits : List Char) : Option Char :=
  if digits.isEmpty then none else Digits.hexChar? digits

/-- The character of `\x`, `\u` or `\U` and what follows it: a fixed number of digits, or any number
in braces. -/
def hexEscape? (flags : Flags) (digits : Nat) (cs : List Char) : Option (Primitive × List Char) :=
  match dropBlanks flags cs with
  | '\x7b' :: rest => do
    let (written, rest) := takeDigits flags (· ≠ '\x7d') rest.length (dropBlanks flags rest)
    match rest with
    | [] => none
    | _ :: rest => some (.char (← charOfHex? written) false, dropBlanks flags rest)
  | cs => do
    let (written, rest) := takeDigits flags (Digits.isDigit 16) digits cs
    if written.length = digits then
      some (.char (← charOfHex? written) (digits = 2), dropBlanks flags rest)
    else none

/-! ### Classes -/

private def splitAt? (mark : List Char) : List Char → Option (List Char × List Char)
  | [] => none
  | c :: cs =>
    if mark.isPrefixOf (c :: cs) then some ([], (c :: cs).drop mark.length)
    else (splitAt? mark cs).map (fun (before, behind) => (c :: before, behind))

/-- The set of the text between the braces of `\p`, and whether the text asks for what is outside. -/
def bracedSet? (edition : Edition) (text : List Char) : Option (Bool × CodeSet) :=
  let valued (unequal : Bool) (parts : List Char × List Char) : Option (Bool × CodeSet) :=
    (valuedSet? edition.unicode (String.ofList parts.1) (String.ofList parts.2)).map (unequal, ·)
  match splitAt? ['!', '='] text, splitAt? [':'] text, splitAt? ['='] text with
  | some parts, _, _ => valued edition.unequalValues parts
  | none, some parts, _ | none, none, some parts => valued false parts
  | none, none, none => (namedSet? edition (String.ofList text)).map (false, ·)

/-- The class behind `\p` or `\P`. -/
def propertyClass? (edition : Edition) (flags : Flags) (negated : Bool) (cs : List Char) :
    Option (Primitive × List Char) := do
  let (found, rest) ← match dropBlanks flags cs with
    | '\x7b' :: rest =>
      let (written, rest) := takeDigits flags (· ≠ '\x7d') rest.length (dropBlanks flags rest)
      match rest with
      | [] => none
      | _ :: rest => some (bracedSet? edition written, rest)
    | c :: rest =>
      if c = '\\' then none
      else some ((namedSet? edition (String.ofList [c])).map (false, ·), dropBlanks flags rest)
    | [] => none
  if !flags.unicode then none
  else
    let (outside, members) ← found
    let members ← finishSet edition.unicode flags (negated != outside) members
    if members.isEmpty ∧ !edition.emptySets then none else some (.set members, rest)

/-- The class `\d`, `\s` or `\w`, or its negation by a capital letter. -/
def shortClass? (v : Unicode.Version) (flags : Flags) (c : Char) : Option Primitive :=
  let negated := c.isUpper
  let lower := c.toLower
  if flags.unicode then
    let members := unicodeShort v lower
    some (.set (if negated then members.compl else members))
  else if negated then none
  else some (.set (asciiShort lower))

/-! ### Escapes -/

def isMark (c : Char) : Bool :=
  c ∈ ['\\', '.', '+', '*', '?', '(', ')', '|', '[', ']', '\x7b', '\x7d', '^', '$', '#', '&', '-', '~']

/-- Whether a backslash may stand before a character without changing it. -/
def isPlainEscape (edition : Edition) (flags : Flags) (c : Char) : Bool :=
  isMark c || (c = ' ' && flags.spaced)
    || (edition.idleEscapes && c.toNat < 128 && !c.isAlphanum && c ≠ '<' && c ≠ '>')

/-- The character that a letter behind a backslash stands for. -/
def letterEscape? (c : Char) : Option Char :=
  match c with
  | 'a' => some '\x07'
  | 'f' => some '\x0c'
  | 't' => some '\t'
  | 'n' => some '\n'
  | 'r' => some '\r'
  | 'v' => some '\x0b'
  | _ => none

/-- The braced kind of a word edge behind `\b`: the rest after it, or nothing if the braces begin a
repetition. A name that is no kind is refused. -/
def wordKind? (flags : Flags) (cs : List Char) : Option (Option (Look × List Char)) :=
  let isName (c : Char) : Bool := c.isAlpha || c = '-'
  let inner := dropBlanks flags cs
  match inner with
  | [] => none
  | c :: _ =>
    if !isName c then some none
    else
      let (name, rest) := takeDigits flags isName inner.length inner
      match rest with
      | '\x7d' :: rest =>
        let ascii := !flags.unicode
        match String.ofList name with
        | "start" => some (some (.wordStart ascii, rest))
        | "end" => some (some (.wordEnd ascii, rest))
        | "start-half" => some (some (.wordStartHalf ascii, rest))
        | "end-half" => some (some (.wordEndHalf ascii, rest))
        | _ => none
      | _ => none

/-- What stands behind a backslash. -/
def escape? (edition : Edition) (flags : Flags) : List Char → Option (Primitive × List Char)
  | [] => none
  | c :: rest =>
    let ascii := !flags.unicode
    if c.isDigit then none
    else if c = 'x' then hexEscape? flags 2 rest
    else if c = 'u' then hexEscape? flags 4 rest
    else if c = 'U' then hexEscape? flags 8 rest
    else if c = 'p' ∨ c = 'P' then propertyClass? edition flags (c = 'P') rest
    else if c ∈ ['d', 's', 'w', 'D', 'S', 'W'] then (shortClass? edition.unicode flags c).map (·, rest)
    else if isPlainEscape edition flags c then some (.char c false, rest)
    else
      match letterEscape? c with
      | some d => some (.char d false, rest)
      | none =>
        match c, rest with
        | 'A', _ => some (.look .textStart, rest)
        | 'z', _ => some (.look .textEnd, rest)
        | 'b', '\x7b' :: inner =>
          if edition.wordSides then
            match wordKind? flags inner with
            | none => none
            | some none => some (.look (.wordEdge ascii), rest)
            | some (some (l, rest)) => some (.look l, rest)
          else some (.look (.wordEdge ascii), rest)
        | 'b', _ => some (.look (.wordEdge ascii), rest)
        | 'B', _ =>
          if ascii ∧ !edition.asciiNoWordEdge then none else some (.look (.noWordEdge ascii), rest)
        | '<', _ => if edition.wordSides then some (.look (.wordStart ascii), rest) else none
        | '>', _ => if edition.wordSides then some (.look (.wordEnd ascii), rest) else none
        | _, _ => none

end PegGrammar.Pattern
