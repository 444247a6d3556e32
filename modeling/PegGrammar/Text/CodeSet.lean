/-!
# Sets of characters

A set of code points is given by the increasing list of the places where membership changes: the
first bound begins a range, the second ends it, the third begins the next. Complement, union,
intersection and difference are then one walk along two lists, which asks at each bound what the two
sides say and keeps the bound if the answer changes.

Surrogates are code points but not characters, so what a set says of them does not matter.
-/

namespace PegGrammar

/-- A set of code points, by the places where membership changes. -/
structure CodeSet where
  bounds : List Nat
  deriving DecidableEq, Repr

namespace CodeSet

/-- The least number above all code points. -/
def limit : Nat := 0x110000

def empty : CodeSet := ⟨[]⟩

/-- All code points. -/
def full : CodeSet := ⟨[0, limit]⟩

/-- The code points from `low` to `high`, both included. -/
def range (low high : Nat) : CodeSet := if low ≤ high then ⟨[low, high + 1]⟩ else empty

/-- One code point. -/
def single (n : Nat) : CodeSet := ⟨[n, n + 1]⟩

private def membership (inside : Bool) (n : Nat) : List Nat → Bool
  | [] => inside
  | b :: bs => if n < b then inside else membership (!inside) n bs

/-- Whether a code point is a member. -/
def containsCode (s : CodeSet) (n : Nat) : Bool := membership false n s.bounds

def contains (s : CodeSet) (c : Char) : Bool := s.containsCode c.toNat

private def combineFrom (op : Bool → Bool → Bool) (inLeft inRight : Bool) :
    List Nat → List Nat → List Nat
  | [], [] => []
  | x :: xs, [] =>
    let rest := combineFrom op (!inLeft) inRight xs []
    if op inLeft inRight = op (!inLeft) inRight then rest else x :: rest
  | [], y :: ys =>
    let rest := combineFrom op inLeft (!inRight) [] ys
    if op inLeft inRight = op inLeft (!inRight) then rest else y :: rest
  | x :: xs, y :: ys =>
    if x < y then
      let rest := combineFrom op (!inLeft) inRight xs (y :: ys)
      if op inLeft inRight = op (!inLeft) inRight then rest else x :: rest
    else if y < x then
      let rest := combineFrom op inLeft (!inRight) (x :: xs) ys
      if op inLeft inRight = op inLeft (!inRight) then rest else y :: rest
    else
      let rest := combineFrom op (!inLeft) (!inRight) xs ys
      if op inLeft inRight = op (!inLeft) (!inRight) then rest else x :: rest
termination_by xs ys => xs.length + ys.length
decreasing_by all_goals simp only [List.length_cons]; omega

/-- The set of the code points for which `op` holds of membership in one set and in the other.
Nothing is a member where `op` is asked about neither. -/
def combine (op : Bool → Bool → Bool) (s t : CodeSet) : CodeSet :=
  ⟨combineFrom op false false s.bounds t.bounds⟩

def union (s t : CodeSet) : CodeSet := combine (· || ·) s t

def inter (s t : CodeSet) : CodeSet := combine (· && ·) s t

/-- Members of the first set that are no members of the second. -/
def diff (s t : CodeSet) : CodeSet := combine (fun a b => a && !b) s t

def symmDiff (s t : CodeSet) : CodeSet := combine (fun a b => a != b) s t

/-- The code points that are no members. -/
def compl (s : CodeSet) : CodeSet := full.diff s

def unions (sets : List CodeSet) : CodeSet := sets.foldl union empty

/-- A range whose ends are characters: surrogates at an end are left out. -/
def trimRange (low high : Nat) : Option (Nat × Nat) :=
  let low := if 0xd800 ≤ low ∧ low < 0xe000 then 0xe000 else low
  let high := if 0xd800 ≤ high ∧ high < 0xe000 then 0xd7ff else high
  if low ≤ high then some (low, high) else none

private def rangesFrom : List Nat → List (Nat × Nat)
  | low :: stop :: rest =>
    match trimRange low (stop - 1) with
    | some range => range :: rangesFrom rest
    | none => rangesFrom rest
  | [low] => (trimRange low (limit - 1)).toList
  | [] => []

/-- The ranges of a set in increasing order, both ends included. -/
def ranges (s : CodeSet) : List (Nat × Nat) := rangesFrom s.bounds

def isEmpty (s : CodeSet) : Bool := s.ranges.isEmpty

/-- How many code points a set has. -/
def size (s : CodeSet) : Nat := s.ranges.foldr (fun (low, high) n => high + 1 - low + n) 0

def isAscii (s : CodeSet) : Bool := s.ranges.all (fun (_, high) => high < 128)

/-- The members of a small set in increasing order. -/
def toList (s : CodeSet) : List Char :=
  s.ranges.flatMap (fun (low, high) => (List.range (high + 1 - low)).map (fun i => Char.ofNat (low + i)))

/-! ### Tables

A table is written as the distances between its bounds, in hexadecimal. -/

/-- The value of a lower-case hexadecimal digit. -/
def tableDigit (c : Char) : Nat := if c.isDigit then c.toNat - 48 else c.toNat - 87

/-- The numbers of a table line, each ended by a space. -/
def tableNumbers (lines : List String) : List Nat :=
  (lines.foldl (fun (state : Nat × List Nat) line =>
    line.toList.foldl (fun (n, done) c =>
      if c = ' ' then (0, n :: done) else (n * 16 + tableDigit c, done)) state) (0, [])).2.reverse

private def addUp (sum : Nat) : List Nat → List Nat
  | [] => []
  | n :: ns => (sum + n) :: addUp (sum + n) ns

def ofTable (lines : List String) : CodeSet := ⟨addUp 0 (tableNumbers lines)⟩

end CodeSet

end PegGrammar
