import PegGrammar.Text.CodeSet

/-!
# Characters as bytes

The encodings of a range of characters, as few sequences of byte ranges: a sequence stands for all
encodings whose bytes lie in its ranges, one by one. Characters whose encodings are equally long are
numbers of so many digits to the base 64, of which the first is written behind a mark of the length.
Such a range of numbers is cut where the first digit changes, unless all smaller digits run over the
whole base.
-/

namespace PegGrammar

/-- A range of bytes, both ends included. -/
structure ByteRange where
  low : Nat
  high : Nat
  deriving DecidableEq, Repr

namespace ByteRange

/-- The bytes behind the first one of an encoding. -/
def continuation : ByteRange := ⟨0x80, 0xbf⟩

/-- The numbers from `low` to `high` of one digit behind `mark` and `digits` digits more. -/
def sequences (mark low high : Nat) : Nat → List (List ByteRange)
  | 0 => [[⟨mark + low, mark + high⟩]]
  | digits + 1 =>
    let unit := Nat.pow 64 (digits + 1)
    let (first, last) := (low / unit, high / unit)
    let under (digit low high : Nat) : List (List ByteRange) :=
      (sequences 0x80 low high digits).map (⟨mark + digit, mark + digit⟩ :: ·)
    if first = last then under first (low % unit) (high % unit)
    else
      let cutLow := low % unit ≠ 0
      let cutHigh := high % unit ≠ unit - 1
      let start := if cutLow then first + 1 else first
      let stop := if cutHigh then last else last + 1
      (if cutLow then under first (low % unit) (unit - 1) else [])
        ++ (if start < stop then
            [⟨mark + start, mark + stop - 1⟩ :: List.replicate (digits + 1) continuation] else [])
        ++ (if cutHigh then under last 0 (high % unit) else [])

/-- The ranges of characters whose encodings are equally long: the least and the greatest, the mark
in front of the first digit and how many digits follow it. Surrogates are left out. -/
def lengths : List (Nat × Nat × Nat × Nat) :=
  [(0, 0x7f, 0, 0), (0x80, 0x7ff, 0xc0, 1), (0x800, 0xd7ff, 0xe0, 2), (0xe000, 0xffff, 0xe0, 2),
    (0x10000, 0x10ffff, 0xf0, 3)]

/-- The encodings of the characters from `low` to `high`. -/
def ofCodes (low high : Nat) : List (List ByteRange) :=
  lengths.flatMap (fun (least, greatest, mark, digits) =>
    let (low, high) := (max low least, min high greatest)
    if low ≤ high then sequences mark low high digits else [])

end ByteRange

def CodeSet.encodings (s : CodeSet) : List (List ByteRange) :=
  s.ranges.flatMap (fun (low, high) => ByteRange.ofCodes low high)

end PegGrammar
