import PegGrammar.Pattern.Escape

/-!
# Bracketed sets

A set in brackets is a list of characters, ranges, classes and further sets, or two sets with an
operator between them: `&&` for what both have, `--` for what only the left one has, and two tildes
for what exactly one has. Operators bind more weakly than lists and group to the left.

The reader keeps a stack of the brackets and left sides that are open. It also measures how deeply
the parts nest, because patterns that nest too deeply are refused.
-/

namespace PegGrammar.Pattern

/-- A set and how deeply its notation nests. -/
structure Nested where
  members : CodeSet
  depth : Nat

/-- The parts of a list so far: their union, their number and the greatest depth. -/
structure Parts where
  members : CodeSet
  count : Nat
  depth : Nat

namespace Parts

def none : Parts := ⟨.empty, 0, 0⟩

def add (p : Parts) (members : CodeSet) (depth : Nat) : Parts :=
  ⟨p.members.union members, p.count + 1, max p.depth depth⟩

/-- The parts as one set; two parts or more are a level of their own. -/
def toNested (p : Parts) : Nested := ⟨p.members, if 2 ≤ p.count then p.depth + 1 else p.depth⟩

end Parts

/-- An operator between two sets. -/
inductive SetOperator where
  | both
  | onlyLeft
  | exactlyOne

def SetOperator.apply : SetOperator → CodeSet → CodeSet → CodeSet
  | .both => CodeSet.inter
  | .onlyLeft => CodeSet.diff
  | .exactlyOne => CodeSet.symmDiff

/-- What is open in a bracketed set. -/
inductive SetFrame where
  /-- A bracket, with the parts in front of it. -/
  | bracket (outer : Parts) (negated : Bool)
  /-- An operator, with its left side. -/
  | operator (op : SetOperator) (left : Nested)

/-- A set with the other case of its letters, where the flags say so. -/
def foldFor (v : Unicode.Version) (flags : Flags) (s : CodeSet) : CodeSet :=
  (finishSet v flags false s).getD s

/-- Applies the operator on top of the stack, if there is one. -/
def applyOperator (v : Unicode.Version) (flags : Flags) (right : Nested) : List SetFrame → Nested × List SetFrame
  | .operator op left :: frames =>
    (⟨op.apply (foldFor v flags left.members) (foldFor v flags right.members),
      max left.depth right.depth + 1⟩, frames)
  | frames => (right, frames)

/-- Takes the dashes in front of a list, each of which stands for itself. -/
def leadingDashes (flags : Flags) (parts : Parts) : Nat → List Char → Option (Parts × List Char)
  | steps + 1, '-' :: cs =>
    leadingDashes flags (parts.add (.single '-'.toNat) 0) steps (dropBlanks flags cs)
  | _, [] => none
  | _, cs => some (parts, cs)

/-- Reads what follows an opening bracket up to the first part: the mark of negation, dashes, and a
closing bracket that stands for itself because nothing precedes it. -/
def openBracket? (flags : Flags) (cs : List Char) : Option (Bool × Parts × List Char) :=
  let cs := dropBlanks flags cs
  let (negated, cs) := match cs with
    | '^' :: cs => (true, dropBlanks flags cs)
    | _ => (false, cs)
  match leadingDashes flags .none cs.length cs with
  | some (parts, ']' :: cs) =>
    if parts.count = 0 then
      match dropBlanks flags cs with
      | [] => none
      | cs => some (negated, parts.add (.single ']'.toNat) 0, cs)
    else some (negated, parts, ']' :: cs)
  | some (parts, cs) => some (negated, parts, cs)
  | none => none

/-- The ASCII class `[:name:]` behind its opening bracket. Anything else is no such class. -/
def asciiClassItem? (cs : List Char) : Option (Bool × CodeSet × List Char) := do
  let ':' :: cs := cs | none
  let (negated, cs) := match cs with
    | '^' :: cs => (true, cs)
    | _ => (false, cs)
  match cs.span (· ≠ ':') with
  | (name, ':' :: ']' :: rest) => some (negated, ← asciiClass? (String.ofList name), rest)
  | _ => none

/-- One item of a list: an escape, or a character that stands for itself. -/
def setItem? (edition : Edition) (flags : Flags) : List Char → Option (Primitive × List Char)
  | [] => none
  | '\\' :: cs => escape? edition flags cs
  | c :: cs => some (.char c false, cs)

/-- The code point of an end of a range or of a part. Without Unicode it must be ASCII. -/
def itemCode? (flags : Flags) : Primitive → Option Nat
  | .char c _ => if flags.unicode ∨ c.toNat < 128 then some c.toNat else none
  | _ => none

def itemMembers? (flags : Flags) : Primitive → Option CodeSet
  | .set members => some members
  | .look _ => none
  | item => (itemCode? flags item).map .single

/-- The next character that is no blank, behind one that was looked at. -/
def peekPastBlanks (flags : Flags) (cs : List Char) : Option Char :=
  if flags.spaced then
    match cs.dropWhile isBlank with
    | '#' :: cs => (cs.dropWhile isBlank).head?
    | cs => cs.head?
  else cs.head?

/-- A part of a list: an item, or a range between two. A dash before a closing bracket or another dash
makes no range. -/
def setRange? (edition : Edition) (flags : Flags) (cs : List Char) :
    Option (CodeSet × List Char) := do
  let (first, rest) ← setItem? edition flags cs
  let rest := dropBlanks flags rest
  match rest with
  | [] => none
  | '-' :: behind =>
    let next := peekPastBlanks flags behind
    if next = some ']' ∨ next = some '-' then some (← itemMembers? flags first, rest)
    else
      let (last, rest) ← setItem? edition flags (dropBlanks flags behind)
      let low ← itemCode? flags first
      let high ← itemCode? flags last
      if low ≤ high then some (.range low high, rest) else none
  | _ => some (← itemMembers? flags first, rest)

/-- Reads parts until the outermost bracket closes. -/
def readSet (edition : Edition) (flags : Flags) :
    Nat → List SetFrame → Parts → List Char → Option (Nested × List Char)
  | 0, _, _, _ => none
  | steps + 1, frames, parts, cs =>
    let operator (op : SetOperator) (rest : List Char) : Option (Nested × List Char) :=
      let (left, frames) := applyOperator edition.unicode flags parts.toNested frames
      readSet edition flags steps (.operator op left :: frames) .none rest
    match dropBlanks flags cs with
    | [] => none
    | '[' :: rest =>
      match asciiClassItem? rest with
      | some (negated, members, rest) =>
        match finishSet edition.unicode flags negated members with
        | some members => readSet edition flags steps frames (parts.add members 0) rest
        | none => none
      | none =>
        match openBracket? flags rest with
        | some (negated, inner, rest) =>
          readSet edition flags steps (.bracket parts negated :: frames) inner rest
        | none => none
    | ']' :: rest =>
      let (whole, frames) := applyOperator edition.unicode flags parts.toNested frames
      match frames with
      | .bracket outer negated :: frames =>
        match finishSet edition.unicode flags negated whole.members with
        | none => none
        | some members =>
          if frames.isEmpty then
            if members.isEmpty ∧ !edition.emptySets then none
            else some (⟨members, whole.depth + 1⟩, rest)
          else readSet edition flags steps frames (outer.add members (whole.depth + 1)) rest
      | _ => none
    | '&' :: '&' :: rest => operator .both rest
    | '-' :: '-' :: rest => operator .onlyLeft rest
    | '~' :: '~' :: rest => operator .exactlyOne rest
    | cs =>
      match setRange? edition flags cs with
      | some (members, rest) => readSet edition flags steps frames (parts.add members 0) rest
      | none => none

/-- The set behind an opening bracket. -/
def bracketed? (edition : Edition) (flags : Flags) (cs : List Char) :
    Option (Nested × List Char) := do
  let (negated, parts, rest) ← openBracket? flags cs
  readSet edition flags cs.length [.bracket .none negated] parts rest

end PegGrammar.Pattern
