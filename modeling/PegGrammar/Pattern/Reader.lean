import PegGrammar.Pattern.Class

/-!
# Reading patterns

A pattern is read from left to right, with a stack of the groups that are open. Inside a group stand
the branches that are finished and the items of the current branch. Flags that are set inside of a
group hold to its end. The reader also measures how deeply the parts nest: branches, groups,
repetitions and lists each count as one level, and a pattern with too many is refused.
-/

namespace PegGrammar.Pattern

def maxNesting : Nat := 250

/-- A part of a pattern, and how deeply its notation nests. -/
structure Part where
  node : Node
  depth : Nat
  /-- Whether a repetition may follow: not where only flags were set. -/
  repeatable : Bool

def Part.flat (node : Node) : Part := ⟨node, 0, true⟩

/-- An open group: what was read of it, last first, and what will be needed when it closes. -/
structure Group where
  branches : List Part
  items : List Part
  /-- The flags in force. -/
  flags : Flags
  /-- The number of a group whose match is remembered. -/
  number : Option Nat

def Group.start (flags : Flags) (number : Option Nat) : Group := ⟨[], [], flags, number⟩

def deepest (parts : List Part) : Nat := parts.foldl (fun d p => max d p.depth) 0

/-- The items of a branch as one part. What only sets flags matches nothing and is left out; a list of
two items or more is a level. -/
def Group.branch (g : Group) : Part :=
  let items := g.items.reverse
  ⟨.sequence ((items.map Part.node).filter (fun node => !node.isEmpty)),
    deepest items + (if 2 ≤ items.length then 1 else 0), true⟩

/-- A group as one part; two branches or more are a level. -/
def Group.whole (g : Group) : Part :=
  match g.branches with
  | [] => g.branch
  | branches =>
    let all := (g.branch :: branches).reverse
    ⟨.oneOf (all.map Part.node), deepest all + 1, true⟩

def Group.add (g : Group) (p : Part) : Group := { g with items := p :: g.items }

def Group.nextBranch (g : Group) : Group := { g with branches := g.branch :: g.branches, items := [] }

/-- What the reader knows. -/
structure Reading where
  /-- The innermost open group. -/
  group : Group
  /-- The groups around it, innermost first. -/
  outer : List Group
  /-- The names of groups so far. -/
  names : List (List Char)
  /-- How many groups have a number so far. -/
  numbered : Nat

/-! ### Pieces -/

def charNode? (edition : Edition) (flags : Flags) (c : Char) (byte : Bool) : Option Node :=
  if flags.unicode then
    let v := edition.unicode
    let orbit := Unicode.caseOrbit v c.toNat
    if flags.caseless ∧ 2 ≤ orbit.length then some (.set ((CodeSet.single c.toNat).foldCase v))
    else some (.char c)
  else if 128 ≤ c.toNat then
    if byte ∨ !edition.wideLiterals then none else some (.char c)
  else if flags.caseless ∧ c.isAlpha then some (.set (foldAscii (.single c.toNat)))
  else some (.char c)

def dotNode? (flags : Flags) : Option Node :=
  if !flags.unicode then none
  else if flags.dotAll then some (.set .full)
  else
    let ends := CodeSet.single '\n'.toNat
    some (.set (if flags.crlf then (ends.union (.single '\r'.toNat)).compl else ends.compl))

def caretLook (flags : Flags) : Look :=
  if !flags.multiLine then .textStart else if flags.crlf then .lineStartCrlf else .lineStart

def dollarLook (flags : Flags) : Look :=
  if !flags.multiLine then .textEnd else if flags.crlf then .lineEndCrlf else .lineEnd

/-- One item that is neither a group nor a set nor a repetition. -/
def single? (edition : Edition) (flags : Flags) : List Char → Option (Node × List Char)
  | [] => none
  | '.' :: cs => (dotNode? flags).map (·, cs)
  | '^' :: cs => some (.look (caretLook flags), cs)
  | '$' :: cs => some (.look (dollarLook flags), cs)
  | '\\' :: cs => do
    let (item, rest) ← escape? edition flags cs
    match item with
    | .char c byte => some (← charNode? edition flags c byte, rest)
    | .set members => some (.set members, rest)
    | .look l => some (.look l, rest)
  | c :: cs => (charNode? edition flags c false).map (·, cs)

/-- Flags behind `(?`, up to the mark that ends them: the flags, whether any were named, and whether
a group follows. Each may be named once, and a dash turns off those behind it. -/
def readFlags (edition : Edition) :
    Nat → Flags → List Char → Bool → List Char → Option (Flags × Bool × Bool × List Char)
  | 0, _, _, _, _ => none
  | _ + 1, _, _, _, [] => none
  | steps + 1, flags, seen, on, c :: cs =>
    if c = ':' ∨ c = ')' then
      if seen.head? = some '-' then none else some (flags, !seen.isEmpty, c = ':', cs)
    else if seen.contains c then none
    else if c = '-' then readFlags edition steps flags (c :: seen) false cs
    else
      match flags.set edition c on with
      | some flags => readFlags edition steps flags (c :: seen) on cs
      | none => none

def nameLetters : CodeSet := (Unicode.property? .v17 "alphabetic").getD .empty

def nameNumbers : CodeSet := (Unicode.category? .v17 "n").getD .empty

/-- Whether a character may stand in the name of a group. -/
def isNameChar (edition : Edition) (first : Bool) (c : Char) : Bool :=
  let isLetter := if edition.anyLetterNames then
      nameLetters.contains c
    else c.isAlpha
  let isNumber := if edition.anyLetterNames then nameNumbers.contains c
    else c.isDigit
  c = '_' || isLetter || (!first && (isNumber || c = '.' || c = '[' || c = ']'))

/-- The name of a group, up to its closing mark. -/
def groupName? (edition : Edition) (cs : List Char) : Option (List Char × List Char) :=
  match cs.span (· ≠ '>') with
  | (first :: name, _ :: rest) =>
    if isNameChar edition true first && name.all (isNameChar edition false) then
      some (first :: name, rest)
    else none
  | _ => none

/-- What follows an opening parenthesis. -/
inductive Opening where
  /-- Flags for the rest of the group. -/
  | flags (flags : Flags)
  /-- A group with these flags whose match is not remembered. -/
  | plain (flags : Flags)
  /-- A group with these flags whose match is remembered, perhaps by a name. -/
  | group (flags : Flags) (name : Option (List Char))

/-- Reads what follows an opening parenthesis. Assertions that look around are not supported. -/
def opening? (edition : Edition) (flags : Flags) (cs : List Char) : Option (Opening × List Char) :=
  match dropBlanks flags cs with
  | '?' :: '=' :: _ | '?' :: '!' :: _ | '?' :: '<' :: '=' :: _ | '?' :: '<' :: '!' :: _ => none
  | '?' :: 'P' :: '<' :: rest =>
    (groupName? edition rest).map (fun (name, rest) => (.group flags (some name), rest))
  | '?' :: '<' :: rest =>
    if edition.shortNames then
      (groupName? edition rest).map (fun (name, rest) => (.group flags (some name), rest))
    else none
  | '?' :: rest => do
    let (set, named, opens, rest) ← readFlags edition (rest.length + 1) flags [] true rest
    if opens then some (.plain set, rest)
    else if named then some (.flags set, rest)
    else none
  | rest => some (.group flags none, rest)

/-- The bounds of a counted repetition, behind its opening brace. -/
def counts? (flags : Flags) (cs : List Char) : Option (Nat × Option Nat × List Char) := do
  let (first, rest) := decimal? flags (dropBlanks flags cs)
  match rest with
  | ',' :: rest =>
    match dropBlanks flags rest with
    | '\x7d' :: rest => some (← first, none, rest)
    | rest =>
      let (last, rest) := decimal? flags rest
      match rest with
      | '\x7d' :: rest =>
        let (min, max) := (← first, ← last)
        if min ≤ max then some (min, some max, rest) else none
      | _ => none
  | '\x7d' :: rest =>
    let n ← first
    some (n, some n, rest)
  | _ => none

def repeatLast? (g : Group) (min : Nat) (max : Option Nat) (rest : List Char) :
    Option (Group × List Char) :=
  match g.items with
  | [] => none
  | last :: items =>
    if last.repeatable then
      let (marked, rest) := match rest with
        | '?' :: rest => (true, rest)
        | _ => (false, rest)
      let greedy := marked == g.flags.swapGreed
      some ({ g with items := ⟨.repeated min max greedy last.node, last.depth + 1, true⟩ :: items },
        rest)
    else none

/-! ### The whole pattern -/

/-- Takes what stands in front of a pattern that is not at its end. -/
def step? (edition : Edition) (r : Reading) (c : Char) (cs : List Char) :
    Option (Reading × List Char) :=
  let flags := r.group.flags
  let inGroup (change : Option (Group × List Char)) : Option (Reading × List Char) :=
    change.map (fun (group, rest) => ({ r with group }, rest))
  match c with
  | '(' =>
    match opening? edition flags cs with
    | none => none
    | some (.flags set, rest) =>
      some ({ r with group := { r.group.add ⟨.empty, 0, false⟩ with flags := set } }, rest)
    | some (.plain set, rest) =>
      some ({ r with group := .start set none, outer := r.group :: r.outer }, rest)
    | some (.group set name, rest) =>
      if name.any r.names.contains then none
      else
        let number := r.numbered + 1
        some (⟨.start set (some number), r.group :: r.outer, name.toList ++ r.names, number⟩, rest)
  | ')' =>
    match r.outer with
    | [] => none
    | around :: outer =>
      let whole := r.group.whole
      let node := .group r.group.number whole.node
      some ({ r with group := around.add ⟨node, whole.depth + 1, true⟩, outer := outer }, cs)
  | '|' => some ({ r with group := r.group.nextBranch }, cs)
  | '[' => do
    let (found, rest) ← bracketed? edition flags cs
    some ({ r with group := r.group.add ⟨.set found.members, found.depth, true⟩ }, rest)
  | '?' => inGroup (repeatLast? r.group 0 (some 1) cs)
  | '*' => inGroup (repeatLast? r.group 0 none cs)
  | '+' => inGroup (repeatLast? r.group 1 none cs)
  | '\x7b' => do
    let (min, max, rest) ← counts? flags cs
    inGroup (repeatLast? r.group min max (dropBlanks flags rest))
  | _ => do
    let (node, rest) ← single? edition flags (c :: cs)
    some ({ r with group := r.group.add (.flat node) }, rest)

/-- Reads to the end of a pattern. Every step takes at least one character. -/
def readFrom (edition : Edition) : Nat → Reading → List Char → Option Part
  | 0, _, _ => none
  | steps + 1, r, cs =>
    match dropBlanks r.group.flags cs with
    | [] => if r.outer.isEmpty then some r.group.whole else none
    | c :: cs =>
      match step? edition r c cs with
      | some (r, rest) => readFrom edition steps r rest
      | none => none

/-- The tree of a pattern, if it is written in the notation of an edition. -/
def parse? (edition : Edition) (text : String) : Option Node := do
  let cs := text.toList
  let whole ← readFrom edition (cs.length + 1) ⟨.start .initial none, [], [], 0⟩ cs
  if whole.depth ≤ maxNesting then some whole.node else none

end PegGrammar.Pattern
