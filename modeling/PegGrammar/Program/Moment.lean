import PegGrammar.Program.Run

/-!
# Moments of a run

A run taken apart into moments. At each moment there is one thing to do next, and parsers and rules that wait for
the outcome of others, innermost first. Nothing says beforehand how long a run takes: a repetition goes on for as
long as its iterations get further, and a rule that calls itself is entered again until too many are waiting.
-/

namespace PegGrammar

/-- A parser or a rule that waits for the outcome of another. -/
inductive Waiting where
  /-- A list: the tokens of the items so far, last first, and the items that are left. -/
  | items (origin : Checkpoint) (found : List Chain) (rest : List Parser)
  /-- A choice: the branches that are left. -/
  | branches (origin : Checkpoint) (rest : List (Option BitSet × Parser))
  /-- A repetition that was entered at `start`, and whose iteration began at `last`. The tokens of the iterations
  before it come last first. -/
  | repeated (body : Parser) (start last : Nat) (found : List Chain)
  | ahead (origin : Checkpoint)
  | notAhead (origin : Checkpoint)
  | optional (origin : Checkpoint)
  /-- A reference, for its rule. -/
  | reference
  /-- A rule that was entered at `start`, for its body. -/
  | rule (rule : CompiledRule) (start : Nat)

namespace Waiting

def isRule : Waiting → Bool
  | .rule _ _ => true
  | _ => false

/-- How often a repetition has run its body: for each match so far, and for the one that it waits for. -/
def iterations : Waiting → Nat
  | .repeated _ _ _ found => found.length + 1
  | _ => 0

/-- How many rules are nested. -/
def depth (waiting : List Waiting) : Nat := waiting.countP isRule

end Waiting

/-- What is done next. -/
inductive Focus where
  | run (parser : Parser)
  /-- Takes the next of the branches of a choice, if it is worth trying. -/
  | choose (origin : Checkpoint) (branches : List (Option BitSet × Parser))
  | call (id : Nat)
  /-- Hands an outcome to what waits for it. -/
  | back (outcome : Option Chain)

structure Moment where
  focus : Focus
  waiting : List Waiting
  state : Running

namespace Moment

/-- The first moment of a run of a rule. -/
def start (id : Nat) (cursor : Cursor) : Moment := ⟨.call id, [], .start cursor⟩

def ofStep (step : Step) (waiting : List Waiting) (s : Running) : Moment :=
  let (outcome, s) := step s
  ⟨.back outcome, waiting, s⟩

/-- Goes on with the items of a list. -/
def goOn (origin : Checkpoint) (found : List Chain) (waiting : List Waiting) (s : Running) :
    List Parser → Moment
  | [] => ⟨.back (some found.reverse.flatten), waiting, s⟩
  | item :: items => ⟨.run item, .items origin found items :: waiting, s⟩

end Moment

namespace Program

open Moment

/-- The moment after one at which a parser is to be run. -/
def enter (p : Program) (waiting : List Waiting) (s : Running) : Parser → Moment
  | .literal text => ofStep (literalStep text) waiting s
  | .regex pattern => ofStep (regexStep pattern) waiting s
  | .eof => ofStep eofStep waiting s
  | .indent => ofStep indentation waiting s
  | .script source handle => ofStep (p.scriptStep source handle) waiting s
  | .sequence items => goOn s.cursor.checkpoint [] waiting s items
  | .choice branches => ⟨.choose s.cursor.checkpoint branches, waiting, s⟩
  | .repeated body => ⟨.run body, .repeated body s.position s.position [] :: waiting, s⟩
  | .ahead body => ⟨.run body, .ahead s.cursor.checkpoint :: waiting, s⟩
  | .notAhead body => ⟨.run body, .notAhead s.cursor.checkpoint :: waiting, s⟩
  | .optional body => ⟨.run body, .optional s.cursor.checkpoint :: waiting, s⟩
  | .rule id => ⟨.call id, .reference :: waiting, s⟩

/-- The moment after one at which a rule is to be run. -/
def enterRule (p : Program) (rule : CompiledRule) (waiting : List Waiting) (s : Running) : Moment :=
  let depth := Waiting.depth waiting
  if p.depthLimit ≤ depth then ⟨.back none, waiting, p.tooDeep rule s⟩
  else
    ⟨.run rule.body, .rule rule s.position :: waiting,
      p.traced depth ("> " ++ rule.name ++ " @ " ++ toString s.position) s⟩

/-- The moment after one at which an outcome is handed to what waits for it. -/
def leave (p : Program) (outcome : Option Chain) (waiting : List Waiting) (s : Running) : Waiting → Moment
  | .items origin found rest =>
    match outcome with
    | some tokens => goOn origin (tokens :: found) waiting s rest
    | none => ⟨.back none, waiting, s.restore origin⟩
  | .branches origin rest =>
    match outcome with
    | some tokens => ⟨.back (some tokens), waiting, s⟩
    | none => ⟨.choose origin rest, waiting, s.restore origin⟩
  | .repeated body start last found =>
    match outcome with
    | some tokens =>
      if last < s.position then
        ⟨.run body, .repeated body start s.position (tokens :: found) :: waiting, s⟩
      else ⟨.back (some (tokens :: found).reverse.flatten), waiting, s⟩
    | none => ⟨.back (if found.isEmpty then none else some found.reverse.flatten), waiting, s⟩
  | .ahead origin => ⟨.back (outcome.map (fun _ => [])), waiting, s.restore origin⟩
  | .notAhead origin => ⟨.back (if outcome.isSome then none else some []), waiting, s.restore origin⟩
  | .optional origin =>
    match outcome with
    | some tokens => ⟨.back (some tokens), waiting, s⟩
    | none => ⟨.back (some []), waiting, s.restore origin⟩
  | .reference => ⟨.back outcome, waiting, s⟩
  | .rule rule start =>
    let outcome := outcome.map (fun tokens => p.wrap rule start tokens s.cursor)
    let verdict := if outcome.isSome then "matched" else "failed"
    ⟨.back outcome, waiting, p.traced (Waiting.depth waiting) ("< " ++ rule.name ++ " " ++ verdict ++ " ("
      ++ toString start ++ ".." ++ toString s.position ++ ")") s⟩

/-- The moment after another. There is none after the outcome of the run, and none if there is no rule of the
number that is called. -/
def next? (p : Program) (m : Moment) : Option Moment :=
  match m.focus with
  | .run parser => some (p.enter m.waiting m.state parser)
  | .choose _ [] => some ⟨.back none, m.waiting, m.state⟩
  | .choose origin ((first, branch) :: rest) =>
    match p.worthTrying first m.state with
    | (true, s) => some ⟨.run branch, .branches origin rest :: m.waiting, s⟩
    | (false, s) => some ⟨.choose origin rest, m.waiting, s⟩
  | .call id => p.rules[id]?.map (fun rule => p.enterRule rule m.waiting m.state)
  | .back outcome =>
    match m.waiting with
    | [] => none
    | w :: waiting => some (p.leave outcome waiting m.state w)

end Program

end PegGrammar
