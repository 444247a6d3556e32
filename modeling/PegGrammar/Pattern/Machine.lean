import PegGrammar.Pattern.Node

/-!
# Machines

A pattern tree is matched by a machine of numbered steps. A step takes a character or asserts something
about the place between two, and goes on to another step; or it forks, and then the first way is
preferred to the second. A tree is turned into steps from its end to its start, so where a part goes on
is known before the part is: only a repetition without a bound leads back, to a fork behind its body
that is put in place once the body is there.

Such a repetition is entered by a fork of its own. An iteration that takes nothing comes to the fork
behind the body at the place where it began; there the body leads nowhere new, so the repetition ends.
-/

namespace PegGrammar.Pattern

/-- A step of a machine. -/
inductive Step where
  /-- The match ends. -/
  | stop
  | char (c : Char) (next : Nat)
  | set (members : CodeSet) (next : Nat)
  | look (l : Look) (next : Nat)
  /-- Both ways are open, the first one first. -/
  | fork (first second : Nat)
  deriving Inhabited, Repr

/-- The steps of a machine, and the one that it starts with. -/
structure Machine where
  steps : Array Step
  entry : Nat

namespace Machine

def enter (m : Machine) (step : Step) : Machine :=
  let entry := m.steps.size
  ⟨m.steps.push step, entry⟩

/-- A fork with two ways, in the order that greed asks for. -/
def forkOf (greedy : Bool) (on out : Nat) : Step := if greedy then .fork on out else .fork out on

def copies (part : Machine → Machine) : Nat → Machine → Machine
  | 0, m => m
  | n + 1, m => copies part n (part m)

/-- Puts copies of a part in front, each of which may be left for `out`. -/
def optionalCopies (part : Machine → Machine) (greedy : Bool) (out : Nat) : Nat → Machine → Machine
  | 0, m => m
  | n + 1, m =>
    let ⟨steps, on⟩ := part m
    optionalCopies part greedy out n (enter ⟨steps, on⟩ (forkOf greedy on out))

/-- Puts one iteration or more of a part in front. -/
def iterations (part : Machine → Machine) (greedy : Bool) : Machine → Machine
  | ⟨steps, out⟩ =>
    let behind := steps.size
    let ⟨steps, on⟩ := part ⟨steps.push (.fork out out), behind⟩
    ⟨steps.setIfInBounds behind (forkOf greedy on out), on⟩

def repetition (part : Machine → Machine) (min : Nat) (max : Option Nat) (greedy : Bool)
    (m : Machine) : Machine :=
  match min, max with
  | min, some max =>
    let out := m.entry
    copies part min (optionalCopies part greedy out (max - min) m)
  | 0, none =>
    let out := m.entry
    let ⟨steps, on⟩ := iterations part greedy m
    enter ⟨steps, on⟩ (forkOf greedy on out)
  | min + 1, none => copies part min (iterations part greedy m)

end Machine

namespace Node

mutual

def takesNothing : Node → Bool
  | .empty | .look _ => true
  | .char _ | .set _ => false
  | .repeated _ max _ body => max = some 0 || (max.isSome && body.takesNothing)
  | .group _ body => body.takesNothing
  | .concat items => allTakeNothing items
  | .choice branches => allTakeNothing branches

/-- Whether all trees of a list match nothing but the empty text. -/
def allTakeNothing : List Node → Bool
  | [] => true
  | node :: nodes => node.takesNothing && allTakeNothing nodes

end

mutual

/-- Puts the steps of a tree in front of a machine. What takes nothing is repeated at most once. -/
def build : Node → Machine → Machine
  | .empty, m => m
  | .char c, m => m.enter (.char c m.entry)
  | .set members, m => m.enter (.set members m.entry)
  | .look l, m => m.enter (.look l m.entry)
  | .repeated min max greedy body, m =>
    if body.takesNothing then
      m.repetition (build body) (Nat.min min 1) (some (Nat.min (max.getD 1) 1)) greedy
    else m.repetition (build body) min max greedy
  | .group _ body, m => build body m
  | .concat items, m => buildAll items m
  | .choice branches, m =>
    let out := m.entry
    buildBranches out branches m

/-- Puts the steps of trees in front of a machine, one behind the other. -/
def buildAll : List Node → Machine → Machine
  | [], m => m
  | [node], m => build node m
  | node :: nodes, m => build node (buildAll nodes m)

/-- Puts the steps of branches in front of a machine, all of which go on at `out`. -/
def buildBranches (out : Nat) : List Node → Machine → Machine
  | [], m => ⟨m.steps, out⟩
  | [node], m => build node ⟨m.steps, out⟩
  | node :: nodes, m =>
    let ⟨steps, second⟩ := buildBranches out nodes m
    let ⟨steps, first⟩ := build node ⟨steps, out⟩
    Machine.enter ⟨steps, first⟩ (.fork first second)

end

def machine (node : Node) : Machine := node.build ⟨#[.stop], 0⟩

end Node

end PegGrammar.Pattern
