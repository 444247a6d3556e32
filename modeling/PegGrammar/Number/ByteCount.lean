import PegGrammar.Number.Shortest

/-!
# Byte counts

A number of bytes for people to read: below a thousand as it is, and otherwise divided by a thousand
until it is smaller than that, with one decimal place and the name of the power. The count and every
quotient are rounded to single precision.
-/

namespace PegGrammar.ByteCount

def scales : List Char := ['k', 'M', 'G', 'T', 'P', 'E', 'Z', 'Y']

def isLarge (x : Dyadic) : Bool := 1000 * x.den ≤ x.num

/-- Divides by a thousand until the value is smaller than that or the names run out. -/
def scaleDown : List Char → Char → Dyadic → Char × Dyadic
  | [], name, x => (name, x)
  | next :: names, name, x =>
    if isLarge x then
      match BinaryFormat.single.div? x ⟨1000, 0⟩ with
      | some y => scaleDown names next y
      | none => (name, x)
    else (name, x)

/-- A value with one decimal place, a half to the even digit. -/
def onePlace (x : Dyadic) : String :=
  let tenths := roundDiv (10 * x.num) x.den
  String.ofList (Nat.toDigits 10 (tenths / 10) ++ '.' :: Nat.toDigits 10 (tenths % 10))

/-- A count of bytes as text. -/
def render (count : Nat) : String :=
  match BinaryFormat.single.round? count 1 with
  | none => "inf bytes"
  | some x =>
    if isLarge x then
      let (name, y) := scaleDown scales ' ' x
      onePlace y ++ " " ++ String.ofList [name, 'B']
    else x.render BinaryFormat.single ++ " bytes"

end PegGrammar.ByteCount
