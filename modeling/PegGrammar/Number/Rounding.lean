/-!
# Rounding to a binary format

A nonnegative value of a binary floating-point format is a mantissa times a power of two. Everything
here is done on exact ratios of natural numbers and rounded once, at the end: to the nearest value
that the format has, and to the even mantissa when two are equally near.
-/

namespace PegGrammar

/-- A quotient rounded to the nearest integer, a half to the even one. -/
def roundDiv (num den : Nat) : Nat :=
  let quotient := num / den
  match compare (2 * (num % den)) den with
  | .lt => quotient
  | .eq => quotient + quotient % 2
  | .gt => quotient + 1

/-- A binary format: how many bits a mantissa has, and the least and greatest power of two that it
is multiplied with. -/
structure BinaryFormat where
  precision : Nat
  minExponent : Int
  maxExponent : Int

def BinaryFormat.double : BinaryFormat := ⟨53, -1074, 971⟩

def BinaryFormat.single : BinaryFormat := ⟨24, -149, 104⟩

/-- The value `mantissa * 2 ^ exponent`. -/
structure Dyadic where
  mantissa : Nat
  exponent : Int
  deriving DecidableEq, Repr

namespace Dyadic

def zero : Dyadic := ⟨0, 0⟩

def num (x : Dyadic) : Nat := x.mantissa * Nat.pow 2 x.exponent.toNat

def den (x : Dyadic) : Nat := Nat.pow 2 (-x.exponent).toNat

end Dyadic

namespace BinaryFormat

/-- The power of two at or below a positive ratio. -/
def floorLog2 (num den : Nat) : Int :=
  let guess : Int := (Nat.log2 num : Int) - Nat.log2 den
  if den * Nat.pow 2 guess.toNat ≤ num * Nat.pow 2 (-guess).toNat then guess else guess - 1

/-- The value of the format nearest to a ratio, or nothing if that lies beyond its range. -/
def round? (f : BinaryFormat) (num den : Nat) : Option Dyadic :=
  if num = 0 then some .zero
  else
    let exponent := max (floorLog2 num den - (f.precision - 1 : Nat)) f.minExponent
    let mantissa := roundDiv (num * Nat.pow 2 (-exponent).toNat) (den * Nat.pow 2 exponent.toNat)
    let x : Dyadic :=
      if mantissa = Nat.pow 2 f.precision then ⟨Nat.pow 2 (f.precision - 1), exponent + 1⟩
      else ⟨mantissa, exponent⟩
    if x.exponent ≤ f.maxExponent then some x else none

def mul? (f : BinaryFormat) (x y : Dyadic) : Option Dyadic :=
  f.round? (x.num * y.num) (x.den * y.den)

def div? (f : BinaryFormat) (x y : Dyadic) : Option Dyadic :=
  f.round? (x.num * y.den) (x.den * y.num)

/-- The value nearest to `digits * 10 ^ exponent`. -/
def ofDecimal? (f : BinaryFormat) (digits : Nat) (exponent : Int) : Option Dyadic :=
  f.round? (digits * Nat.pow 10 exponent.toNat) (Nat.pow 10 (-exponent).toNat)

end BinaryFormat

end PegGrammar
