import PegGrammar.Json.Error
import PegGrammar.Number.Digits
import PegGrammar.Number.Shortest

/-!
# Numbers of a JSON text

A number loads as text: an integer of 64 bits in decimal, anything else as a double in the fewest
digits. The double is found in two roundings. The digits, as far as they fit 64 bits, make a whole
number, which is rounded; that is multiplied with or divided by the power of ten that is left over,
itself a rounded double, and rounded again.
-/

namespace PegGrammar.Json

/-- A number as it is written. -/
structure Numeral where
  negative : Bool
  /-- The digits in front of the point. -/
  whole : List Char
  /-- The digits behind the point, if there is one. -/
  fraction : Option (List Char)
  /-- Whether the exponent is negative, and its digits, if there is one. -/
  exponent : Option (Bool × List Char)
  deriving Repr

namespace Numeral

/-! ### Scanning -/

/-- The digits at the front, at least one, and what follows them. -/
def scanDigits (cs : List Char) : Except Error (List Char × List Char) :=
  match cs.span Char.isDigit with
  | ([], []) => .error .ended
  | ([], _ :: _) => .error .malformed
  | (digits, rest) => .ok (digits, rest)

/-- The digits in front of the point; a zero stands alone. -/
def scanWhole (cs : List Char) : Except Error (List Char × List Char) :=
  match cs with
  | '0' :: c :: rest => if c.isDigit then .error .malformed else .ok (['0'], c :: rest)
  | _ => scanDigits cs

/-- The point and the digits behind it. -/
def scanFraction (cs : List Char) : Except Error (Option (List Char) × List Char) :=
  match cs with
  | '.' :: rest => do
    let (digits, rest) ← scanDigits rest
    .ok (some digits, rest)
  | _ => .ok (none, cs)

/-- The mark of an exponent, its sign and its digits. -/
def scanExponent (cs : List Char) : Except Error (Option (Bool × List Char) × List Char) :=
  match cs with
  | [] => .ok (none, [])
  | c :: rest =>
    if c = 'e' ∨ c = 'E' then do
      let (negative, rest) := match rest with
        | '+' :: rest => (false, rest)
        | '-' :: rest => (true, rest)
        | _ => (false, rest)
      let (digits, rest) ← scanDigits rest
      .ok (some (negative, digits), rest)
    else .ok (none, cs)

/-- The number behind a sign that was read. -/
def scan (negative : Bool) (cs : List Char) : Except Error (Numeral × List Char) := do
  let (whole, rest) ← scanWhole cs
  let (fraction, rest) ← scanFraction rest
  let (exponent, rest) ← scanExponent rest
  .ok (⟨negative, whole, fraction, exponent⟩, rest)

/-! ### Values -/

/-- Takes digits into a whole number as long as it fits 64 bits, and gives the digits left over. -/
def takeFitting (significand : Nat) : List Char → Nat × List Char
  | [] => (significand, [])
  | c :: cs =>
    let next := significand * 10 + (Digits.value? 10 c).getD 0
    if next < Nat.pow 2 64 then takeFitting next cs else (significand, c :: cs)

/-- The double for a significand and a power of ten: each factor is rounded, and so is the result.
A power beyond the range of doubles is divided out in steps of `10 ^ 308`. -/
def scaleDouble : Nat → Dyadic → Int → Option Dyadic
  | 0, _, _ => some .zero
  | steps + 1, x, exponent =>
    let power? (n : Nat) := BinaryFormat.double.ofDecimal? 1 n
    if exponent.natAbs ≤ 308 then do
      let power ← power? exponent.natAbs
      if 0 ≤ exponent then BinaryFormat.double.mul? x power else BinaryFormat.double.div? x power
    else if x.mantissa = 0 then some .zero
    else if 0 ≤ exponent then none
    else do
      let power ← power? 308
      scaleDouble steps (← BinaryFormat.double.div? x power) (exponent + 308)

/-- The text of `significand * 10 ^ exponent` as a double, if it is in range. A value underflows to
zero after at most three steps. -/
def doubleText? (negative : Bool) (significand : Nat) (exponent : Int) : Option String := do
  let x ← BinaryFormat.double.round? significand 1
  (← scaleDouble 4 x exponent).renderSigned BinaryFormat.double negative

/-- The text of a whole number: in decimal if it fits a 64-bit integer with its sign, and otherwise
as a double. Zero with a minus sign is a double. -/
def integerText? (negative : Bool) (n : Nat) : Option String :=
  if !negative then some (toString n)
  else if 0 < n ∧ n ≤ Nat.pow 2 63 then some ("-" ++ toString n)
  else doubleText? true n 0

/-- The text that a number loads as; nothing if it is too large for a double. -/
def text? (n : Numeral) : Option String :=
  let (significand, left) := takeFitting 0 n.whole
  if left.isEmpty ∧ n.fraction.isNone ∧ n.exponent.isNone then integerText? n.negative significand
  else
    let places := n.fraction.getD []
    let (digits, dropped) := takeFitting significand places
    let power : Int := (left.length : Int) - (places.length - dropped.length : Nat)
    match n.exponent with
    | none => doubleText? n.negative digits power
    | some (negative, exponent) =>
      let e := Digits.toNat 10 exponent
      if e < Nat.pow 2 31 then doubleText? n.negative digits (if negative then power - e else power + e)
      else if digits ≠ 0 ∧ !negative then none
      else some (Dyadic.zero.renderSigned BinaryFormat.double n.negative)

end Numeral

end PegGrammar.Json
