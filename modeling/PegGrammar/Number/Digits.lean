/-!
# Digits

The numbers that digits of a radix up to sixteen spell.
-/

namespace PegGrammar.Digits

/-- The value of a digit of a radix; the letters are digits above nine in either case. -/
def value? (radix : Nat) (c : Char) : Option Nat :=
  let value? :=
    if '0' ≤ c ∧ c ≤ '9' then some (c.toNat - '0'.toNat)
    else if 'a' ≤ c ∧ c ≤ 'f' then some (c.toNat - 'a'.toNat + 10)
    else if 'A' ≤ c ∧ c ≤ 'F' then some (c.toNat - 'A'.toNat + 10)
    else none
  value?.filter (· < radix)

def isDigit (radix : Nat) (c : Char) : Bool := (value? radix c).isSome

def toNat (radix : Nat) (digits : List Char) : Nat :=
  digits.foldl (fun n c => n * radix + (value? radix c).getD 0) 0

/-- The character whose code is written in hexadecimal digits, if there is one. -/
def hexChar? (digits : List Char) : Option Char :=
  let n := toNat 16 digits
  if !digits.all (isDigit 16) then none
  else if h : n.isValidChar then some (Char.ofNatAux n h)
  else none

end PegGrammar.Digits
