import PegGrammar.Number.Digits
import PegGrammar.Number.Shortest
import PegGrammar.Toml.Lexeme
import PegGrammar.Toml.Value

/-!
# Numbers, dates and times of a TOML text

A number or date may be spread over several lexemes, since its points, colons and plus signs are
marks of their own. Which of the two it is shows in the first word: a date has a `T` or a hyphen
behind its first character, and a time is followed by a colon. Dates and times are kept as they are
written and not checked any further.
-/

namespace PegGrammar.Toml

/-! ### Digits -/

/-- The digits behind a first one, and what follows them. An underscore stands between two digits. -/
def moreDigits? (radix : Nat) : List Char → Option (List Char × List Char)
  | [] => some ([], [])
  | ['_'] => none
  | '_' :: c :: cs =>
    if Digits.isDigit radix c then
      (moreDigits? radix cs).map (fun (digits, rest) => (c :: digits, rest))
    else none
  | c :: cs =>
    if Digits.isDigit radix c then
      (moreDigits? radix cs).map (fun (digits, rest) => (c :: digits, rest))
    else some ([], c :: cs)

/-- The digits at the front, at least one, and what follows them. Unless `zeros` allows it, a zero in
front stands alone. -/
def digits? (radix : Nat) (zeros : Bool) : List Char → Option (List Char × List Char)
  | [] => none
  | c :: cs =>
    if Digits.isDigit radix c then do
      let (digits, rest) ← moreDigits? radix cs
      if c = '0' ∧ digits ≠ [] ∧ !zeros then none else some (c :: digits, rest)
    else none

/-- The digits behind a sign, which is a hyphen or left out. -/
def signedDigits? (zeros : Bool) : List Char → Option (Bool × List Char × List Char)
  | '-' :: cs => (digits? 10 zeros cs).map (true, ·)
  | cs => (digits? 10 zeros cs).map (false, ·)

/-! ### Integers -/

/-- A whole number of a radix other than ten, which has no sign. -/
def natural? (radix : Nat) (cs : List Char) : Option Value :=
  match digits? radix true cs with
  | some (digits, []) =>
    let n := Digits.toNat radix digits
    if n < Nat.pow 2 63 then some (.integer n) else none
  | _ => none

def integer? (cs : List Char) : Option Value :=
  match signedDigits? false cs with
  | some (negative, digits, []) =>
    let n := Digits.toNat 10 digits
    if negative then if n ≤ Nat.pow 2 63 then some (.integer (-n)) else none
    else if n < Nat.pow 2 63 then some (.integer n) else none
  | _ => none

/-! ### Numbers with a point or an exponent -/

/-- A double nearest to `digits * 10 ^ exponent`. Powers far outside the range of doubles are told
by their size alone. -/
def double? (digits : List Char) (exponent : Int) : Option Dyadic :=
  let significand := Digits.toNat 10 digits
  if significand = 0 then some .zero
  else
    let size := exponent + digits.length
    if size < -400 then some .zero
    else if 400 + digits.length < size then none
    else BinaryFormat.double.ofDecimal? significand exponent

def decimal? (negative : Bool) (whole fraction : List Char) (exponent : Int) : Option Value := do
  let x ← double? (whole ++ fraction) (exponent - fraction.length)
  some (.decimal (x.renderSigned BinaryFormat.double negative))

def exponentOf (negative : Bool) (digits : List Char) : Int :=
  let n : Int := Digits.toNat 10 digits
  if negative then -n else n

/-- The exponent that may stand behind the digits of a number: in the same word, or, if the word ends
with its mark, in the next one, in front of which there may be a plus sign. -/
def exponent? (suffix : List Char) (rest : List Lexeme) : Option (Int × List Lexeme) :=
  match suffix with
  | [] => some (0, rest)
  | c :: cs =>
    if c ≠ 'e' ∧ c ≠ 'E' then none
    else if cs = [] then
      let rest := match rest with
        | .plus :: rest => rest
        | _ => rest
      match rest with
      | .word text :: rest =>
        match digits? 10 true text.toList with
        | some (digits, []) => some (exponentOf false digits, rest)
        | _ => none
      | _ => none
    else
      match signedDigits? true cs with
      | some (negative, digits, []) => some (exponentOf negative digits, rest)
      | _ => none

def withExponent? (cs : List Char) (rest : List Lexeme) : Option (Value × List Lexeme) := do
  let (negative, whole, suffix) ← signedDigits? false cs
  let (exponent, rest) ← exponent? suffix rest
  some (← decimal? negative whole [] exponent, rest)

/-- A number with a point, behind which a word must stand. -/
def withPoint? (cs : List Char) (rest : List Lexeme) : Option (Value × List Lexeme) :=
  match signedDigits? false cs, rest with
  | some (negative, whole, []), .word after :: rest => do
    let (fraction, suffix) ← digits? 10 true after.toList
    let (exponent, rest) ← exponent? suffix rest
    some (← decimal? negative whole fraction exponent, rest)
  | _, _ => none

def number? (word : String) (rest : List Lexeme) : Option (Value × List Lexeme) :=
  let whole (value? : Option Value) := value?.map (·, rest)
  match word.toList with
  | '0' :: 'x' :: cs => whole (natural? 16 cs)
  | '0' :: 'o' :: cs => whole (natural? 8 cs)
  | '0' :: 'b' :: cs => whole (natural? 2 cs)
  | cs =>
    if cs.contains 'e' ∨ cs.contains 'E' then withExponent? cs rest
    else
      match rest with
      | .period :: rest => withPoint? cs rest
      | _ =>
        match word with
        | "inf" => some (.decimal "inf", rest)
        | "-inf" => some (.decimal "-inf", rest)
        | "nan" | "-nan" => some (.decimal "NaN", rest)
        | _ => whole (integer? cs)

/-! ### Dates and times -/

def word? : List Lexeme → Option (String × List Lexeme)
  | .word text :: rest => some (text, rest)
  | _ => none

/-- A word behind a mark, if the mark comes next; the two as text. -/
def marked? (mark : Lexeme) (written : String) (rest : List Lexeme) :
    Option (String × List Lexeme) :=
  match rest with
  | lexeme :: rest =>
    if lexeme = mark then (word? rest).map (fun (text, rest) => (written ++ text, rest))
    else some ("", lexeme :: rest)
  | [] => some ("", [])

/-- The minutes, seconds, fraction and offset of a time, behind the first colon. -/
def clock? (rest : List Lexeme) : Option (String × List Lexeme) := do
  let (minutes, rest) ← word? rest
  match rest with
  | .colon :: rest =>
    let (seconds, rest) ← word? rest
    let (fraction, rest) ← marked? .period "." rest
    let (offset, rest) ← marked? .plus "+" rest
    let (offsetMinutes, rest) ← marked? .colon ":" rest
    some (":" ++ minutes ++ ":" ++ seconds ++ fraction ++ offset ++ offsetMinutes, rest)
  | _ => none

/-- A date that starts with a word; behind a single space the hours may follow, and behind a colon
the rest of a time. -/
def date? (word : String) (rest : List Lexeme) : Option (Value × List Lexeme) :=
  let (text, rest) := match rest with
    | .space :: .word hours :: rest => (word ++ " " ++ hours, rest)
    | _ => (word, rest)
  match rest with
  | .colon :: rest => (clock? rest).map (fun (time, rest) => (.dateTime (text ++ time), rest))
  | _ => some (.dateTime text, rest)

/-- Whether a word starts a date: it has a `T`, or a hyphen that is neither its sign nor that of an
exponent. -/
def startsDate (cs : List Char) : Bool :=
  let negativeExponent := (cs.zip (cs.drop 1)).any (fun (c, d) => (c = 'e' ∨ c = 'E') ∧ d = '-')
  cs.contains 'T' || cs.contains 't' || ((cs.drop 1).contains '-' && !negativeExponent)

/-- The number, date or time that starts with a word. -/
def numberOrDate? (word : String) (rest : List Lexeme) : Option (Value × List Lexeme) :=
  if startsDate word.toList then date? word rest
  else
    match rest with
    | .colon :: rest => (clock? rest).map (fun (time, rest) => (.dateTime (word ++ time), rest))
    | _ => number? word rest

def wordValue? (word : String) (rest : List Lexeme) : Option (Value × List Lexeme) :=
  match word with
  | "true" => some (.boolean true, rest)
  | "false" => some (.boolean false, rest)
  | "inf" | "nan" => numberOrDate? word rest
  | _ =>
    match word.toList with
    | c :: _ => if c = '-' ∨ c.isDigit then numberOrDate? word rest else none
    | [] => none

end PegGrammar.Toml
