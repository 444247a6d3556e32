import Std.Data.HashMap
import PegGrammar.Text.ByteRange
import PegGrammar.Pattern.Outline
import PegGrammar.Pattern.WordTree

/-!
# The room of a pattern

A pattern is laid out as a machine that reads bytes, once for reading forwards and once for reading
backwards, and is refused if one of the two takes too much room. A state takes some room, and each
further state that it leads to takes more. Repetitions are laid out as often as they are repeated at
least, so a short pattern can need a lot.

States of a set are shared where they are alike. What was laid out is looked up in a table with a
fixed number of slots, each of which remembers the last state that fell into it; a state whose slot
was taken over is laid out again.
-/

namespace PegGrammar.Pattern

/-- How many states were laid out and how many bytes they take. -/
structure Layout where
  states : Nat
  bytes : Nat
  deriving DecidableEq, Repr

namespace Layout

def empty : Layout := ⟨0, 0⟩

/-- The bytes that a layout may take. -/
def maxBytes : Nat := 10 * 1024 * 1024

/-- The bytes of a state. -/
def stateBytes : Nat := 32

/-- The bytes of a step from a state by a range of bytes, where a state has several. -/
def stepBytes : Nat := 8

/-- The bytes of a step that reads nothing, where a state has several. -/
def linkBytes : Nat := 4

/-- Adds states and bytes, unless there is too little room. -/
def grow? (l : Layout) (states extra : Nat) : Option Layout :=
  let bytes := l.bytes + stateBytes * states + extra
  if bytes ≤ maxBytes then some ⟨l.states + states, bytes⟩ else none

/-- Does something several times, as long as there is room. -/
def times (f : Layout → Option Layout) : Nat → Layout → Option Layout
  | 0, l => some l
  | n + 1, l =>
    match f l with
    | some l => times f n l
    | none => none

end Layout

/-! ### States that are alike -/

/-- A layout and the states of a set that can be shared: by slot, what the state is like and its
number. -/
structure SharedLayout where
  layout : Layout
  slots : Std.HashMap UInt64 (List Nat × Nat)

namespace SharedLayout

/-- The slot of a state, out of a number of slots, from what it is like. -/
def slotOf (slots : UInt64) (likeness : List Nat) : UInt64 :=
  likeness.foldl (fun h n => (h ^^^ n.toUInt64) * 1099511628211) 14695981039346656037 % slots

/-- The number of a state that is like this. It is laid out unless its slot remembers it. -/
def state? (s : SharedLayout) (slots : UInt64) (extra : Nat) (likeness : List Nat) :
    Option (Nat × SharedLayout) :=
  let slot := slotOf slots likeness
  let add : Option (Nat × SharedLayout) := do
    let layout ← s.layout.grow? 1 extra
    some (s.layout.states, ⟨layout, s.slots.insert slot (likeness, s.layout.states)⟩)
  match s.slots[slot]? with
  | some (known, number) => if known = likeness then some (number, s) else add
  | none => add

end SharedLayout

/-! ### Sets, backwards

Every sequence of byte ranges is laid out from its first range on, each state leading to the one
before it, the last one being where the set is entered. -/

def backwardSlots : UInt64 := 1000

def layoutBackward? (stop : Nat) (s : SharedLayout) (sequence : List ByteRange) :
    Option SharedLayout := do
  let (_, s) ← sequence.foldlM (fun (next, s) r =>
    SharedLayout.state? s backwardSlots 0 [next, r.low, r.high]) (stop, s)
  some { s with layout := ← s.layout.grow? 0 Layout.linkBytes }

def layoutSetBackward? (members : CodeSet) (l : Layout) : Option Layout := do
  let entered ← l.grow? 2 0
  let s ← members.encodings.foldlM (layoutBackward? (l.states + 1)) ⟨entered, ∅⟩
  some s.layout

/-! ### Sets, forwards

The sequences come in order, so the states that the last sequence went through are kept open, from
the first byte on: each with the steps that are finished and the range that is not. A new sequence
goes through the open states as far as it agrees with the last one; what lies behind is finished. -/

/-- A state that is still open. -/
structure OpenState where
  steps : List (ByteRange × Nat)
  last : Option ByteRange

namespace OpenState

def ofRange (r : ByteRange) : OpenState := ⟨[], some r⟩

def lead (s : OpenState) (next : Nat) : OpenState :=
  match s.last with
  | some r => ⟨s.steps ++ [(r, next)], none⟩
  | none => s

def likeness (s : OpenState) : List Nat :=
  s.steps.flatMap (fun (r, next) => [r.low, r.high, next])

end OpenState

def forwardSlots : UInt64 := 10000

def finish? (state : OpenState) (s : SharedLayout) : Option (Nat × SharedLayout) :=
  s.state? forwardSlots (Layout.stepBytes * state.steps.length) state.likeness

/-- Finishes open states, the last of which leads to `stop`: the number of the first. -/
def finishAll? (stop : Nat) : List OpenState → SharedLayout → Option (Nat × SharedLayout)
  | [], s => some (stop, s)
  | state :: states, s => do
    let (next, s) ← finishAll? stop states s
    finish? (state.lead next) s

/-- Keeps some open states and the one behind them, and finishes the others. -/
def keepOpen? (stop : Nat) : Nat → List OpenState → SharedLayout →
    Option (List OpenState × SharedLayout)
  | _, [], s => some ([], s)
  | 0, state :: states, s => do
    let (next, s) ← finishAll? stop states s
    some ([state.lead next], s)
  | n + 1, state :: states, s => do
    let (kept, s) ← keepOpen? stop n states s
    some (state :: kept, s)

/-- How many ranges of a sequence agree with those that are open. -/
def agreement : List ByteRange → List OpenState → Nat
  | r :: sequence, state :: states => if state.last = some r then agreement sequence states + 1 else 0
  | _, _ => 0

def goOnWith (ranges : List ByteRange) : List OpenState → List OpenState
  | [] => []
  | [state] =>
    match ranges with
    | [] => [state]
    | r :: ranges => { state with last := some r } :: ranges.map OpenState.ofRange
  | state :: states => state :: goOnWith ranges states

def layoutForward? (stop : Nat) (states : List OpenState × SharedLayout)
    (sequence : List ByteRange) : Option (List OpenState × SharedLayout) := do
  let kept := agreement sequence states.1
  let (opened, s) ← keepOpen? stop kept states.1 states.2
  some (goOnWith (sequence.drop kept) opened, s)

def layoutSetForward? (members : CodeSet) (l : Layout) : Option Layout := do
  let entered ← l.grow? 1 0
  let (states, s) ← members.encodings.foldlM (layoutForward? l.states) ([⟨[], none⟩], ⟨entered, ∅⟩)
  let (_, s) ← finishAll? l.states states s
  some s.layout

/-! ### Words -/

mutual

/-- Adds the states of a tree of words: one for each section that has branches, and one that chooses
between the sections and the ends of words. -/
def WordTree.layout : WordTree → Nat × Nat → Nat × Nat
  | .node closed current, sum =>
    let used := ((closed ++ [current]).filter (fun branches => !branches.isEmpty)).length
    let sum := layoutBranches current (layoutSections closed sum)
    (sum.1 + 1, sum.2 + Layout.linkBytes * (used + closed.length))

def layoutSections : List (List (Nat × WordTree)) → Nat × Nat → Nat × Nat
  | [], sum => sum
  | branches :: sections, sum => layoutSections sections (layoutBranches branches sum)

/-- Adds the state of a section and those behind its branches. -/
def layoutBranches (branches : List (Nat × WordTree)) (sum : Nat × Nat) : Nat × Nat :=
  layoutBehind branches
    (match branches with
    | [] => sum
    | [_] => (sum.1 + 1, sum.2)
    | _ => (sum.1 + 1, sum.2 + Layout.stepBytes * branches.length))

/-- Adds the states behind branches. A branch at which words only end leads to the end. -/
def layoutBehind : List (Nat × WordTree) → Nat × Nat → Nat × Nat
  | [], sum => sum
  | (_, tree) :: branches, sum =>
    layoutBehind branches (if tree.isLeaf then sum else tree.layout sum)

end

/-- The bytes of a text. -/
def bytesOfText (text : List Char) : List Nat :=
  (String.ofList text).toUTF8.toList.map UInt8.toNat

def layoutWords? (backward : Bool) (words : List (List Char)) (l : Layout) : Option Layout :=
  let written := words.map (fun text =>
    if backward then (bytesOfText text).reverse else bytesOfText text)
  let (states, extra) := (WordTree.ofWords written).layout (1, 0)
  l.grow? states extra

/-! ### Outlines -/

namespace Outline

def word? : Outline → Option (List Char)
  | .word text => some text
  | _ => none

/-- The words of a choice between two words or more. -/
def words? (branches : List Outline) : Option (List (List Char)) :=
  if branches.length < 2 then none else branches.mapM word?

/-- Lays out a set. One of ASCII characters needs no sequences. -/
def layoutSet? (backward : Bool) (members : CodeSet) (l : Layout) : Option Layout :=
  if members.isEmpty then l.grow? 1 0
  else if members.isAscii then l.grow? 2 (Layout.stepBytes * members.ranges.length)
  else if backward then layoutSetBackward? members l
  else layoutSetForward? members l

/-- Adds a state that chooses between going on and leaving. -/
def fork? (l : Layout) : Option Layout := l.grow? 1 (2 * Layout.linkBytes)

def layoutRepetition? (part : Layout → Option Layout) (mayBeEmpty : Bool) (min : Nat)
    (max : Option Nat) (l : Layout) : Option Layout :=
  match min, max with
  | 0, some 1 => do (← part (← fork? l)).grow? 1 0
  | 0, none =>
    if mayBeEmpty then do (← fork? (← fork? (← part l))).grow? 1 0
    else do part (← fork? l)
  | n, none => do fork? (← Layout.times part n l)
  | n, some m => do
    let l ← if n = 0 then l.grow? 1 0 else Layout.times part n l
    if n = m then some l
    else Layout.times (fun l => do part (← fork? l)) (m - n) (← l.grow? 1 0)

mutual

/-- Lays out an outline. The matches of groups are remembered only when reading forwards. -/
def layout? (backward : Bool) : Outline → Layout → Option Layout
  | .empty, l => l.grow? 1 0
  | .word text, l => l.grow? (bytesOfText text).length 0
  | .set members, l => layoutSet? backward members l
  | .look _, l => l.grow? 1 0
  | .repeated min max _ body, l =>
    layoutRepetition? (layout? backward body)
      (match body.minLength? with
      | some n => n = 0
      | none => true) min max l
  | .remembered _ body, l =>
    if backward then layout? backward body l
    else do (← layout? backward body (← l.grow? 1 0)).grow? 1 0
  | .concat items, l => layoutList? backward items l
  | .choice branches, l =>
    match words? branches with
    | some words => layoutWords? backward words l
    | none => layoutBranches? backward 0 branches l

/-- Lays out the parts of a list, from the last one on when reading backwards. -/
def layoutList? (backward : Bool) : List Outline → Layout → Option Layout
  | [], l => some l
  | x :: xs, l =>
    if backward then do layout? backward x (← layoutList? backward xs l)
    else do layoutList? backward xs (← layout? backward x l)

/-- Lays out branches. The states where they part and meet are laid out behind the second one. -/
def layoutBranches? (backward : Bool) (before : Nat) : List Outline → Layout → Option Layout
  | [], l => some l
  | x :: xs, l => do
    let l ← layout? backward x l
    let l ← l.grow? (if before = 1 then 2 else 0) Layout.linkBytes
    layoutBranches? backward (before + 1) xs l

end

/-! ### Whole patterns -/

mutual

/-- Whether every match goes through an assertion before it takes a character or, backwards, after it
took its last one. -/
def forces (backward : Bool) (l : Look) : Outline → Bool
  | .look k => k = l
  | .repeated min _ _ body => min ≠ 0 && body.forces backward l
  | .remembered _ body => body.forces backward l
  | .concat items => listForces backward l items
  | .choice branches => allForce backward l branches
  | .empty | .word _ | .set _ => false

/-- Whether every match of a list goes through an assertion at its end that is read first. -/
def listForces (backward : Bool) (l : Look) : List Outline → Bool
  | [] => false
  | x :: xs =>
    if backward then
      listForces backward l xs || (xs.all (fun y => y.maxLength? = some 0) && x.forces backward l)
    else x.forces backward l || (x.maxLength? = some 0 && listForces backward l xs)

/-- Whether every match of each branch goes through an assertion. -/
def allForce (backward : Bool) (l : Look) : List Outline → Bool
  | [] => true
  | x :: xs => x.forces backward l && allForce backward l xs

end

/-- Lays out a whole pattern. In front of it stand states that skip what precedes a match, unless
matches can only be where reading starts. Reading forwards remembers the whole match. -/
def layoutWhole? (backward : Bool) (x : Outline) : Option Layout := do
  let fixed := x.forces backward (if backward then .textEnd else .textStart)
  let start ← if fixed then Layout.empty.grow? 1 0
    else Layout.empty.grow? 3 (2 * Layout.linkBytes + Layout.stepBytes)
  if backward then (← x.layout? backward start).grow? 1 0
  else (← x.layout? backward (← start.grow? 1 0)).grow? 2 0

def fits (x : Outline) : Bool := (x.layoutWhole? false).isSome && (x.layoutWhole? true).isSome

end Outline

def Node.fits (node : Node) : Bool := (Outline.ofNode node).fits

end PegGrammar.Pattern
