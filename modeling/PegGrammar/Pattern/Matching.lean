import Std.Data.HashSet
import PegGrammar.Pattern.Machine
import PegGrammar.Text.Place
import PegGrammar.Unicode.Property

/-!
# Matching

A machine is run by a search with a stack of what is still to be tried: a step and the place where it
is tried. At a fork, the first way is put on top of the second. What follows depends on the step and the
place alone, so a step that was tried at a place is never tried there again; that bounds the search by
the number of steps times the length of the text. The places at which the search stops are the ends of
the matches, each once, in the order in which they are preferred.
-/

namespace PegGrammar.Pattern

/-! ### Assertions -/

def wordCharacters : CodeSet := Unicode.wordCharacters .v16

def isWord (ascii : Bool) (c : Char) : Bool :=
  if c.toNat < 128 then c.isAlphanum || c = '_' else !ascii && wordCharacters.contains c

def Look.holds (l : Look) (p : Place) : Bool :=
  let before := p.read.head?
  let behind := p.rest.head?
  let wordBefore (ascii : Bool) := before.any (isWord ascii)
  let wordBehind (ascii : Bool) := behind.any (isWord ascii)
  match l with
  | .textStart => before.isNone
  | .textEnd => behind.isNone
  | .lineStart => before.isNone || before = some '\n'
  | .lineEnd => behind.isNone || behind = some '\n'
  | .lineStartCrlf =>
    before.isNone || before = some '\n' || (before = some '\r' && behind ≠ some '\n')
  | .lineEndCrlf => behind.isNone || behind = some '\r' || (behind = some '\n' && before ≠ some '\r')
  | .wordEdge ascii => wordBefore ascii != wordBehind ascii
  | .noWordEdge ascii => wordBefore ascii == wordBehind ascii
  | .wordStart ascii => !wordBefore ascii && wordBehind ascii
  | .wordEnd ascii => wordBefore ascii && !wordBehind ascii
  | .wordStartHalf ascii => !wordBefore ascii
  | .wordEndHalf ascii => !wordBehind ascii

/-! ### What was tried -/

/-- How many numbers below a bound are not in a set. -/
def unseen (seen : Std.HashSet Nat) : Nat → Nat
  | 0 => 0
  | n + 1 => unseen seen n + if seen.contains n then 0 else 1

theorem unseen_insert_le (seen : Std.HashSet Nat) (i n : Nat) :
    unseen (seen.insert i) n ≤ unseen seen n := by
  induction n with
  | zero => exact Nat.le_refl _
  | succ n ih =>
    simp only [unseen, Std.HashSet.contains_insert]
    cases seen.contains n <;> cases (i == n) <;> simp <;> omega

/-- To put a number into a set leaves fewer that are not in it. -/
theorem unseen_insert_lt {seen : Std.HashSet Nat} {i n : Nat} (hi : i < n)
    (hs : seen.contains i = false) : unseen (seen.insert i) n < unseen seen n := by
  induction n with
  | zero => omega
  | succ n ih =>
    simp only [unseen, Std.HashSet.contains_insert]
    by_cases h : i = n
    · subst h
      have := unseen_insert_le seen i i
      simp [hs]
      omega
    · have := ih (by omega)
      simp [h]
      omega

/-! ### Searching -/

abbrev PlaceIn (start : Place) := { p : Place // p.sourceLength = start.sourceLength }

/-- The place behind a character that follows, in the same text. -/
def PlaceIn.past {start : Place} (p : PlaceIn start) (c : Char) (cs : List Char)
    (h : p.val.rest = c :: cs) : PlaceIn start :=
  ⟨p.val.past c cs, by
    refine Eq.trans ?_ p.property
    simp only [Place.sourceLength, Place.past, h, byteLength_cons]
    omega⟩

/-- Where a step leads from a place, the preferred way first; nothing if it leads nowhere. -/
def Step.next {start : Place} (step : Step) (p : PlaceIn start) : List (Nat × PlaceIn start) :=
  match step with
  | .stop => []
  | .char c next =>
    match h : p.val.rest with
    | [] => []
    | d :: ds => if c = d then [(next, p.past d ds h)] else []
  | .set members next =>
    match h : p.val.rest with
    | [] => []
    | d :: ds => if members.contains d then [(next, p.past d ds h)] else []
  | .look l next => if l.holds p.val then [(next, p)] else []
  | .fork first second => [(first, p), (second, p)]

def Machine.index (m : Machine) (s : Nat) (p : Place) : Nat := p.offset * m.steps.size + s

theorem Machine.index_lt {m : Machine} {s : Nat} {start : Place} (p : PlaceIn start)
    (hs : s < m.steps.size) : m.index s p.val < (start.sourceLength + 1) * m.steps.size := by
  have h : p.val.offset ≤ start.sourceLength :=
    Nat.le_trans (Nat.le_add_right _ _) (Nat.le_of_eq p.property)
  have := Nat.mul_le_mul_right m.steps.size h
  simp only [Machine.index, Nat.add_mul]
  omega

/-- The ends of matches, behind those that were found already, last first. `firstOnly` says whether the
search ends once one was found. -/
def Machine.search (m : Machine) (firstOnly : Bool) (start : Place) (seen : Std.HashSet Nat)
    (found : List Place) : List (Nat × PlaceIn start) → List Place
  | [] => found.reverse
  | (s, p) :: tasks =>
    if hs : s < m.steps.size then
      if hp : seen.contains (m.index s p.val) then m.search firstOnly start seen found tasks
      else
        let seen := seen.insert (m.index s p.val)
        match m.steps[s] with
        | .stop =>
          if firstOnly then (p.val :: found).reverse
          else m.search firstOnly start seen (p.val :: found) tasks
        | step => m.search firstOnly start seen found (step.next p ++ tasks)
    else m.search firstOnly start seen found tasks
termination_by tasks => (unseen seen ((start.sourceLength + 1) * m.steps.size), tasks.length)
decreasing_by
  · exact Prod.Lex.right _ (by simp)
  · exact Prod.Lex.left _ _ (unseen_insert_lt (Machine.index_lt p hs) (by simpa using hp))
  · exact Prod.Lex.left _ _ (unseen_insert_lt (Machine.index_lt p hs) (by simpa using hp))
  · exact Prod.Lex.right _ (by simp)

/-- The ends of the matches that start at a place, the preferred one first. -/
def Machine.ends (m : Machine) (p : Place) : List Place :=
  m.search false p ∅ [] [(m.entry, ⟨p, rfl⟩)]

/-- The preferred end of a match that starts at a place. -/
def Machine.matchAt? (m : Machine) (p : Place) : Option Place :=
  (m.search true p ∅ [] [(m.entry, ⟨p, rfl⟩)]).head?

/-- The first place at or behind the given one at which a match starts, and its preferred end. -/
def Machine.findFrom? (m : Machine) (p : Place) : Option (Place × Place) :=
  match m.matchAt? p with
  | some stop => some (p, stop)
  | none =>
    match _h : p.rest with
    | [] => none
    | c :: cs => m.findFrom? (p.past c cs)
termination_by p.rest.length
decreasing_by simp [Place.past, _h]

/-- The places at which the matches of a tree end that start at a place, in the order of preference. -/
def Node.ends (node : Node) (p : Place) : List Place := node.machine.ends p

end PegGrammar.Pattern
