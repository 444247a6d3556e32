import PegGrammar.Pattern.Node

/-!
# What a match starts with

A list of byte strings such that every match of a tree starts with one of them. A string is complete
while it may still be extended by what follows it in the tree, and cut once it may not: then a match
starts with it but the string says nothing of how it goes on. Lists are kept small: sets of more than
ten characters are given up, and so is a list whose strings are longer, all together, than a limit.
Parts of a tree get a share of the limit, so what is found depends on how the tree is built.
-/

namespace PegGrammar.Pattern

/-- A byte string that a match may start with. -/
structure Start where
  bytes : List UInt8
  /-- Whether the string may not be extended. -/
  cut : Bool
  deriving DecidableEq, Repr

namespace Start

def empty : Start := ⟨[], false⟩

def extend (a b : Start) : Start := ⟨a.bytes ++ b.bytes, b.cut⟩

end Start

abbrev Starts := List Start

namespace Starts

/-- The bytes of a character. -/
def bytesOf (c : Char) : List UInt8 := (String.ofList [c]).toUTF8.toList

def size (x : Starts) : Nat := x.foldr (fun s n => s.bytes.length + n) 0

/-- Whether a list says nothing: it has no strings, or only empty ones. -/
def isVoid (x : Starts) : Bool := x.all (fun s => s.bytes.isEmpty)

def anyComplete (x : Starts) : Bool := x.any (fun s => !s.cut)

def hasEmpty (x : Starts) : Bool := x.any (fun s => s.bytes.isEmpty)

def cutAll (x : Starts) : Starts := x.map (fun s => { s with cut := true })

/-- The strings that may be extended, the empty one if there is none. -/
def base (x : Starts) : Starts :=
  match x.filter (fun s => !s.cut) with
  | [] => [.empty]
  | complete => complete

/-- Extends the complete strings of one list by the strings of another, unless the result is larger
than the limit. -/
def cross? (limit : Nat) (x y : Starts) : Option Starts :=
  if isVoid y then some x
  else
    let sizeAfter :=
      if isVoid x || !anyComplete x then size x + size y
      else
        let complete := x.filter (fun s => !s.cut)
        size (x.filter Start.cut) + complete.length * size y + y.length * size complete
    if limit < sizeAfter then none
    else some (x.filter Start.cut ++ y.flatMap (fun b => (base x).map (fun a => a.extend b)))

/-- The strings of two lists, unless they are larger than the limit. -/
def union? (limit : Nat) (x y : Starts) : Option Starts :=
  if limit < size x + size y then none else some (x ++ if isVoid y then [.empty] else y)

end Starts

open Starts

def maxMembers : Nat := 10

def startsOfChar (limit : Nat) (c : Char) : Starts :=
  let bytes := bytesOf c
  [⟨bytes.take limit, decide (limit < bytes.length)⟩]

def startsOfSet (limit : Nat) (s : CodeSet) : Starts :=
  if maxMembers < s.size ∨ limit < s.size then []
  else s.toList.map (fun c => ⟨bytesOf c, false⟩)

/-- What a repetition starts with that may be left out. -/
def startsOfOptional (limit : Nat) (body : Starts) : Starts :=
  if isVoid body then []
  else
    match cross? limit [] body with
    | none => []
    | some once => (union? limit [] (cutAll once ++ [.empty])).getD []

/-- A part of a list: the start of the text, or what another part starts with. -/
inductive ListPart where
  | textStart
  | starts (x : Starts)

/-- What parts one behind the other start with. -/
def startsOfParts (limit : Nat) (x : Starts) : List ListPart → Starts
  | [] => x
  | .textStart :: parts =>
    if isVoid x then startsOfParts limit (x ++ [.empty]) parts else cutAll x
  | .starts y :: parts =>
    match cross? limit x y with
    | none => cutAll x
    | some z => if anyComplete y then startsOfParts limit z parts else cutAll z

def startsOfBranches (limit : Nat) (x : Starts) : List Starts → Starts
  | [] => (cross? limit [] x).getD []
  | y :: rest =>
    if isVoid y then []
    else
      match union? limit x y with
      | some z => startsOfBranches limit z rest
      | none => []

def Node.isTextStart : Node → Bool
  | .look .textStart => true
  | _ => false

mutual

def Node.starts (limit : Nat) : Node → Starts
  | .char c => startsOfChar limit c
  | .set members => startsOfSet limit members
  | .group _ body => body.starts limit
  | .repeated min max _ body =>
    if min = 0 then startsOfOptional limit (body.starts (limit / 2))
    else
      let copies := Nat.min limit min
      let part := if body.isTextStart then .textStart else .starts (body.starts limit)
      let x :=
        if copies = 1 then body.starts limit
        else startsOfParts limit [] (List.replicate copies part)
      if copies < min ∨ hasEmpty x ∨ max ≠ some min then cutAll x else x
  | .concat items => startsOfParts limit [] (partsOf limit items)
  | .choice branches => startsOfBranches limit [] (startsOfEach (limit / 5) branches)
  | .empty | .look _ => []

def partsOf (limit : Nat) : List Node → List ListPart
  | [] => []
  | node :: nodes =>
    (if node.isTextStart then .textStart else .starts (node.starts limit)) :: partsOf limit nodes

def startsOfEach (limit : Nat) : List Node → List Starts
  | [] => []
  | node :: nodes => node.starts limit :: startsOfEach limit nodes

end

/-- How long the strings that a pattern starts with may be, all together. -/
def maxStarts : Nat := 250

/-- The texts that the matches of a tree start with, if that is known of all of them. -/
def Node.prefixes? (node : Node) : Option (List String) :=
  let x := node.starts maxStarts
  if isVoid x ∨ hasEmpty x ∨ maxStarts < size x then none
  else x.mapM (fun s => String.fromUTF8? s.bytes.toByteArray)

end PegGrammar.Pattern
