import PegGrammar.Pattern.Node

/-!
# Outlines of patterns

An outline is a pattern tree without what makes no difference to its matches. Groups that remember
nothing are dissolved, characters in a row are words, lists within lists and choices within choices are
one, a choice between characters or between sets is a set, and what all branches of a choice begin with
stands in front of it. What can match nothing but the empty text is repeated at most once.
-/

namespace PegGrammar.Pattern

/-- A pattern tree without what makes no difference. -/
inductive Outline where
  | empty
  | word (text : List Char)
  | set (members : CodeSet)
  | look (l : Look)
  | repeated (min : Nat) (max : Option Nat) (greedy : Bool) (body : Outline)
  | remembered (number : Nat) (body : Outline)
  | concat (items : List Outline)
  | choice (branches : List Outline)
  deriving Inhabited, BEq

namespace Outline

/-! ### Lengths

How many bytes a match has at least and at most. Neither is known of what cannot match at all, and
there is no greatest length where a repetition has no bound. -/

/-- How many bytes encode a code point. -/
def codeLength (n : Nat) : Nat := (Char.ofNat n).utf8Size

mutual

def minLength? : Outline → Option Nat
  | .empty | .look _ => some 0
  | .word text => some (String.ofList text).utf8ByteSize
  | .set members => members.ranges.head?.map (fun (low, _) => codeLength low)
  | .repeated min _ _ body => body.minLength?.map (· * min)
  | .remembered _ body => body.minLength?
  | .concat items => minOfList? items
  | .choice branches => minOfBranches? branches

def minOfList? : List Outline → Option Nat
  | [] => some 0
  | x :: xs => do some ((← x.minLength?) + (← minOfList? xs))

def minOfBranches? : List Outline → Option Nat
  | [] => none
  | [x] => x.minLength?
  | x :: xs => do some (min (← x.minLength?) (← minOfBranches? xs))

end

mutual

def maxLength? : Outline → Option Nat
  | .empty | .look _ => some 0
  | .word text => some (String.ofList text).utf8ByteSize
  | .set members => members.ranges.getLast?.map (fun (_, high) => codeLength high)
  | .repeated _ max _ body => do some ((← body.maxLength?) * (← max))
  | .remembered _ body => body.maxLength?
  | .concat items => maxOfList? items
  | .choice branches => maxOfBranches? branches

def maxOfList? : List Outline → Option Nat
  | [] => some 0
  | x :: xs => do some ((← x.maxLength?) + (← maxOfList? xs))

def maxOfBranches? : List Outline → Option Nat
  | [] => none
  | [x] => x.maxLength?
  | x :: xs => do some (max (← x.maxLength?) (← maxOfBranches? xs))

end

/-! ### Building -/

def ofSet (members : CodeSet) : Outline :=
  match members.ranges with
  | [(low, high)] => if low = high then .word [Char.ofNat low] else .set members
  | _ => .set members

def joinWords : List Outline → List Outline
  | [] => []
  | .word a :: rest =>
    match joinWords rest with
    | .word b :: rest => .word (a ++ b) :: rest
    | rest => .word a :: rest
  | x :: rest => x :: joinWords rest

def items : Outline → List Outline
  | .empty => []
  | .concat items => items
  | x => [x]

/-- Parts one behind the other. -/
def sequence (parts : List Outline) : Outline :=
  match joinWords (parts.flatMap items) with
  | [] => .empty
  | [x] => x
  | items => .concat items

def branches : Outline → List Outline
  | .choice branches => branches
  | x => [x]

/-- The members of a set, or the character of a word that has no other. -/
def members? (single : Bool) : Outline → Option CodeSet
  | .set members => if single then none else some members
  | .word [c] => if single then some (.single c.toNat) else none
  | _ => none

/-- The set that a choice between characters, or one between sets, amounts to. -/
def unionOf? (branches : List Outline) : Option Outline :=
  let all (single : Bool) : Option Outline :=
    (branches.mapM (members? single)).map (fun sets => ofSet (.unions sets))
  all true <|> all false

/-- The parts that two lists have in common at the front. -/
def commonFront : List Outline → List Outline → List Outline
  | x :: xs, y :: ys => if x == y then x :: commonFront xs ys else []
  | _, _ => []

/-- What the lists of all branches have in common at the front, and what is left of each. -/
def factor? (branches : List Outline) : Option (List Outline × List (List Outline)) := do
  let lists ← branches.mapM (fun
    | .concat items => some items
    | _ => none)
  match lists with
  | [] => none
  | first :: rest =>
    let front := rest.foldl commonFront first
    if front.isEmpty then none else some (front, lists.map (List.drop front.length))

/-- Branches to choose from. What is left behind a common front is a choice again; `depth` bounds how
often that goes on. -/
def oneOfWithin : Nat → List Outline → Outline
  | depth, parts =>
    match parts.flatMap branches with
    | [] => .set .empty
    | [x] => x
    | all =>
      match unionOf? all, factor? all, depth with
      | some merged, _, _ => merged
      | none, some (front, rests), depth + 1 =>
        sequence (front ++ [oneOfWithin depth (rests.map sequence)])
      | none, _, _ => .choice all

mutual

def partCount : Outline → Nat
  | .repeated _ _ _ body | .remembered _ body => body.partCount + 1
  | .concat items => partCountOfList items + 1
  | .choice branches => partCountOfList branches + 1
  | .empty | .word _ | .set _ | .look _ => 1

def partCountOfList : List Outline → Nat
  | [] => 0
  | x :: xs => x.partCount + partCountOfList xs

end

/-- Branches to choose from. A front that is taken out makes the rest smaller, so no more fronts are
taken out than there are parts. -/
def oneOf (parts : List Outline) : Outline := oneOfWithin (partCountOfList parts) parts

/-- A repetition. What matches nothing but the empty text is repeated at most once. -/
def repetition (min : Nat) (max : Option Nat) (greedy : Bool) (body : Outline) : Outline :=
  let (min, max) := if body.maxLength? = some 0
    then (Nat.min min 1, some (Nat.min (max.getD 1) 1)) else (min, max)
  if min = 0 ∧ max = some 0 then .empty
  else if min = 1 ∧ max = some 1 then body
  else .repeated min max greedy body

mutual

def ofNode : Node → Outline
  | .empty => .empty
  | .char c => .word [c]
  | .set members => ofSet members
  | .look l => .look l
  | .repeated min max greedy body => repetition min max greedy (ofNode body)
  | .group number body =>
    match number with
    | some number => .remembered number (ofNode body)
    | none => ofNode body
  | .concat items => sequence (ofNodes items)
  | .choice branches => oneOf (ofNodes branches)

def ofNodes : List Node → List Outline
  | [] => []
  | node :: nodes => ofNode node :: ofNodes nodes

end

end Outline

end PegGrammar.Pattern
