import PegGrammar.Number.Rounding

/-!
# Shortest decimal digits

Among the decimals that round to a given value of a binary format, the one with the fewest digits is
written, and of those with the fewest the nearest. The decimals that round to a value form an
interval around it, whose ends belong to it when the mantissa is even. For one digit, two, three and
so on, the two neighbours of the value on that decimal grid are tried: if any point of the grid lies
in the interval, one of the neighbours does.
-/

namespace PegGrammar.Dyadic

/-- The interval of the ratios that round to a value, its ends as numerators over one denominator. -/
structure Interval where
  low : Nat
  value : Nat
  high : Nat
  den : Nat
  closed : Bool

/-- The interval around a positive value. Below the least mantissa of full width the format is
twice as dense, so the lower end is half as far away. -/
def interval (f : BinaryFormat) (x : Dyadic) : Interval :=
  let unit := Nat.pow 2 x.exponent.toNat
  let dense := x.mantissa = Nat.pow 2 (f.precision - 1) ∧ f.minExponent < x.exponent
  { low := (4 * x.mantissa - (if dense then 1 else 2)) * unit
    value := 4 * x.mantissa * unit
    high := (4 * x.mantissa + 2) * unit
    den := 4 * x.den
    closed := x.mantissa % 2 = 0 }

/-- Whether `digits * 10 ^ exponent` lies in an interval. -/
def Interval.contains (i : Interval) (digits : Nat) (exponent : Int) : Bool :=
  let point := digits * Nat.pow 10 exponent.toNat * i.den
  let scale := Nat.pow 10 (-exponent).toNat
  if i.closed then i.low * scale ≤ point ∧ point ≤ i.high * scale
  else i.low * scale < point ∧ point < i.high * scale

/-- The power of ten at or below a positive ratio, searched upwards or downwards from zero. -/
def floorLog10 (num den : Nat) : Int :=
  if den ≤ num then ((Nat.toDigits 10 (num / den)).length : Int) - 1
  else
    let above := (Nat.toDigits 10 (den / num)).length
    if den ≤ num * Nat.pow 10 (above - 1) then -((above - 1 : Nat) : Int) else -(above : Int)

/-- The first grid, from `10 ^ exponent` downwards, that has a point in the interval; of its two
candidates the nearer, and the greater when both are equally near. -/
def Interval.shortestFrom (i : Interval) : Nat → Int → Nat × Int
  | 0, exponent => (0, exponent)
  | more + 1, exponent =>
    let scaled := i.value * Nat.pow 10 (-exponent).toNat
    let unit := i.den * Nat.pow 10 exponent.toNat
    let below := scaled / unit
    let nearer := 2 * (scaled % unit) < unit
    match i.contains below exponent, i.contains (below + 1) exponent with
    | true, true => (if nearer then below else below + 1, exponent)
    | true, false => (below, exponent)
    | false, true => (below + 1, exponent)
    | false, false => shortestFrom i more (exponent - 1)

/-- The digits and the power of ten of the shortest decimal that rounds to a positive value. -/
def shortest (f : BinaryFormat) (x : Dyadic) : Nat × Int :=
  (x.interval f).shortestFrom 20 (floorLog10 x.num x.den)

/-- Drops zeros at the end, each for one power of ten. -/
def dropZeros : Nat → Nat × Int → Nat × Int
  | 0, d => d
  | n + 1, (digits, exponent) =>
    if digits ≠ 0 ∧ digits % 10 = 0 then dropZeros n (digits / 10, exponent + 1)
    else (digits, exponent)

/-- The decimal `digits * 10 ^ exponent` without an exponent: zeros fill the places up to the point,
and a whole number has no point. -/
def positional (digits : Nat) (exponent : Int) : String :=
  let written := Nat.toDigits 10 digits
  if 0 ≤ exponent then String.ofList (written ++ List.replicate exponent.toNat '0')
  else
    let places := (-exponent).toNat
    let padded := List.replicate (places + 1 - written.length) '0' ++ written
    let whole := padded.length - places
    String.ofList (padded.take whole ++ '.' :: padded.drop whole)

/-- A value in the fewest digits that read back as the same value. -/
def render (f : BinaryFormat) (x : Dyadic) : String :=
  if x.mantissa = 0 then "0"
  else
    let (digits, exponent) := dropZeros 400 (x.shortest f)
    positional digits exponent

/-- A value behind a sign, which a zero has too. -/
def renderSigned (f : BinaryFormat) (negative : Bool) (x : Dyadic) : String :=
  (if negative then "-" else "") ++ x.render f

end PegGrammar.Dyadic
