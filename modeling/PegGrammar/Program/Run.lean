import PegGrammar.Program.Basic
import PegGrammar.Token.Basic

/-!
# Running programs

A parser that fails leaves the cursor where it was, with the same blocks open. Most parsers do so
because their parts do; a list comes back to where it began, and a lookahead comes back in any case.

Rules are run by recursion on how many more may be nested, and each body by recursion on its tree, so
every run comes to an end. A repetition ends with the first iteration that does not get further.
-/

namespace PegGrammar

/-- How far a run got. -/
structure Report where
  /-- The furthest offset at which something was tried or ended. -/
  furthest : Nat
  /-- Whether a rule failed only because too many were nested. -/
  depthLimitReached : Bool
  deriving DecidableEq, Repr

/-- The state of a run. -/
structure Running where
  cursor : Cursor
  report : Report
  /-- An offset, and the literals that the text starts with there. -/
  starting : Option (Nat × BitSet)
  /-- What was recorded, last first. -/
  log : List LogRecord

namespace Running

def start (cursor : Cursor) : Running := ⟨cursor, ⟨0, false⟩, none, []⟩

/-- The offset of the cursor. -/
def position (s : Running) : Nat := s.cursor.position

/-- Notes that something was tried or ended at an offset. -/
def reached (s : Running) (n : Nat) : Running :=
  { s with report := { s.report with furthest := max s.report.furthest n } }

def movedTo (s : Running) (c : Cursor) : Running := { s with cursor := c }

def restore (s : Running) (p : Checkpoint) : Running := s.movedTo (s.cursor.restore p)

def record (s : Running) (level : LogLevel) (message : String) : Running :=
  { s with log := ⟨level, LogRecord.parser, message⟩ :: s.log }

end Running

/-- A step of a run: the tokens of a match, or nothing if there is none. -/
abbrev Step := Running → Option Chain × Running

namespace Program

/-! ### Indentation -/

/-- The kind of the part of an indentation that belongs to blocks that were open. -/
def currentIndentKind : String := "current_indent"

/-- The kind of the part of an indentation that opens a block. -/
def indentKind : String := "indent"

/-- The kind of the empty tokens that close blocks. -/
def dedentKind : String := "dedent"

def isIndent (c : Char) : Bool := c = ' ' || c = '\t'

/-- Matches the indentation at the cursor. That of the innermost block matches as it is; one that
extends it opens a block; that of a block further out closes all blocks inside of that one. -/
def indentation : Step := fun s =>
  let start := s.position
  let s := s.reached start
  let run := s.cursor.remaining.takeWhile isIndent
  let indent := String.ofList run
  let stop := start + byteLength run
  let current := s.cursor.innermost
  let matched (tokens : Chain) (c : Cursor) : Option Chain × Running :=
    let moved := c.setPosition stop
    (some tokens, (s.movedTo moved).reached moved.position)
  if indent = current then
    matched [.leaf currentIndentKind indent start stop] s.cursor
  else if current.toList.isPrefixOf run then
    let split := start + current.utf8ByteSize
    let added := String.ofList (run.drop current.toList.length)
    matched [.leaf currentIndentKind current start split, .leaf indentKind added split stop]
      (s.cursor.pushIndent indent)
  else
    match s.cursor.indents.reverse.findIdx? (· = indent) with
    | some closed =>
      matched (List.replicate closed (.leaf dedentKind "" start start)
        ++ [.leaf currentIndentKind indent start stop]) (s.cursor.popIndents closed)
    | none =>
      (none, s.record .debug ("indentation " ++ Text.shown indent ++ " at " ++ toString start
        ++ " matches no open block"))

/-! ### Leaves -/

def literalStep (text : String) : Step := fun s =>
  let start := s.position
  let s := s.reached start
  match s.cursor.eat? text with
  | none => (none, s)
  | some moved =>
    (some [.leaf text text start moved.position], (s.movedTo moved).reached moved.position)

def regexKind : String := "regex"

def regexStep (pattern : Pattern) : Step := fun s =>
  let start := s.position
  let s := s.reached start
  match pattern.match? s.cursor with
  | none => (none, s)
  | some (value, moved) =>
    (some [.leaf regexKind value start moved.position], (s.movedTo moved).reached moved.position)

def eofStep : Step := fun s =>
  let s := s.reached s.position
  (if s.cursor.isDone then some [] else none, s)

def scriptStep (p : Program) (source : String) (handle : Nat) : Step := fun s =>
  let checkpoint := s.cursor.checkpoint
  match p.scripts.run handle s.cursor with
  | (.ok tokens, moved) => (some tokens, (s.movedTo moved).reached moved.position)
  | (.error reason, moved) =>
    let s := s.record .debug ("script " ++ Text.shown source ++ " didn't match at "
      ++ toString checkpoint.position ++ ": " ++ reason.message)
    (none, (s.movedTo moved).restore checkpoint)

/-! ### Alternatives -/

/-- Whether the text that follows starts with one of some literals. The answer for all literals is
kept as long as the cursor stays where it is. -/
def mayStart (p : Program) (first : BitSet) (s : Running) : Bool × Running :=
  match s.starting with
  | some (position, set) =>
    if position = s.position then (set.overlaps first, s)
    else
      let set := p.literalsStarting s.cursor.remaining
      (set.overlaps first, { s with starting := some (s.position, set) })
  | none =>
    let set := p.literalsStarting s.cursor.remaining
    (set.overlaps first, { s with starting := some (s.position, set) })

def worthTrying (p : Program) (first : Option BitSet) (s : Running) : Bool × Running :=
  match first with
  | none => (true, s)
  | some first => p.mayStart first s

/-! ### Repetitions -/

/-- Goes on with a repetition whose last iteration began at `last`, as long as iterations match and
get further. `found` holds their tokens, last first. -/
def repeatFrom (step : Step) : Nat → Nat → List Chain → Step
  | 0, _, found => fun s => (some found.reverse.flatten, s)
  | fuel + 1, last, found => fun s =>
    if last < s.position then
      match step s with
      | (some tokens, next) => repeatFrom step fuel s.position (tokens :: found) next
      | (none, next) => (some found.reverse.flatten, next)
    else (some found.reverse.flatten, s)

/-- Matches once or more. No more iterations get further than there are bytes left. -/
def repeatStep (step : Step) : Step := fun s =>
  match step s with
  | (none, next) => (none, next)
  | (some tokens, next) =>
    repeatFrom step (s.cursor.length - s.position + 1) s.position [tokens] next

/-! ### Trees -/

mutual

/-- Runs a parser; `call` runs the rule of a number. -/
def node (p : Program) (call : Nat → Step) : Parser → Step
  | .literal text => literalStep text
  | .regex pattern => regexStep pattern
  | .eof => eofStep
  | .indent => indentation
  | .sequence items => fun s => runItems p call s.cursor.checkpoint [] items s
  | .repeated body => repeatStep (node p call body)
  | .choice branches => fun s => runBranches p call s.cursor.checkpoint branches s
  | .ahead body => fun s =>
    let (outcome, next) := node p call body s
    (outcome.map (fun _ => []), next.restore s.cursor.checkpoint)
  | .notAhead body => fun s =>
    let (outcome, next) := node p call body s
    (if outcome.isSome then none else some [], next.restore s.cursor.checkpoint)
  | .optional body => fun s =>
    match node p call body s with
    | (some tokens, next) => (some tokens, next)
    | (none, next) => (some [], next.restore s.cursor.checkpoint)
  | .script source handle => p.scriptStep source handle
  | .rule id => call id

/-- Runs parsers one behind the other. -/
def runItems (p : Program) (call : Nat → Step) (origin : Checkpoint) (found : List Chain) :
    List Parser → Step
  | [] => fun s => (some found.reverse.flatten, s)
  | item :: items => fun s =>
    match node p call item s with
    | (some tokens, next) => runItems p call origin (tokens :: found) items next
    | (none, next) => (none, next.restore origin)

/-- Runs the branches that are worth trying until one matches. -/
def runBranches (p : Program) (call : Nat → Step) (origin : Checkpoint) :
    List (Option BitSet × Parser) → Step
  | [] => fun s => (none, s)
  | (first, branch) :: branches => fun s =>
    match p.worthTrying first s with
    | (false, s) => runBranches p call origin branches s
    | (true, s) =>
      match node p call branch s with
      | (some tokens, next) => (some tokens, next)
      | (none, next) => runBranches p call origin branches (next.restore origin)

end

/-! ### Rules -/

/-- The names of rules that never get a token of their own start with this. -/
def hiddenMark : String := "__"

def hasOwnToken (p : Program) (rule : CompiledRule) : Bool :=
  p.config.parseTree && !hiddenMark.toList.isPrefixOf rule.name.toList

/-- Puts the tokens of a rule under a token of its own, where it gets one. -/
def wrap (p : Program) (rule : CompiledRule) (start : Nat) (tokens : Chain) (c : Cursor) : Chain :=
  if p.hasOwnToken rule then
    [.node rule.name (c.textBetween start c.position) start c.position tokens]
  else tokens

def margin (depth : Nat) : String := String.ofList (List.replicate depth ' ')

def traced (p : Program) (depth : Nat) (message : String) (s : Running) : Running :=
  if p.config.trace then s.record .trace (margin depth ++ message) else s

/-- What happens to a rule that is nested too deeply: it fails, and the first time this is recorded. -/
def tooDeep (p : Program) (rule : CompiledRule) (s : Running) : Running :=
  let s :=
    if s.report.depthLimitReached then s
    else s.record .warn ("rule `" ++ rule.name ++ "` nested more than " ++ toString p.depthLimit
      ++ " deep at position " ++ toString s.position ++ "; treating it as a failure")
  { s with report := { s.report with depthLimitReached := true } }

/-- Runs the rule of a number, inside of which `room` more may be nested. -/
def callRule (p : Program) : Nat → Nat → Step
  | 0, id => fun s =>
    match p.rules[id]? with
    | none => (none, s)
    | some rule => (none, p.tooDeep rule s)
  | room + 1, id => fun s =>
    match p.rules[id]? with
    | none => (none, s)
    | some rule =>
      let depth := p.depthLimit - (room + 1)
      let start := s.position
      let s := p.traced depth ("> " ++ rule.name ++ " @ " ++ toString start) s
      let (outcome, s) := node p (callRule p room) rule.body s
      let outcome := outcome.map (fun tokens => p.wrap rule start tokens s.cursor)
      let verdict := if outcome.isSome then "matched" else "failed"
      (outcome, p.traced depth ("< " ++ rule.name ++ " " ++ verdict ++ " (" ++ toString start ++ ".."
        ++ toString s.position ++ ")") s)

/-- The result of a run. -/
structure Result where
  /-- The tokens of the match, or nothing if there is none. -/
  outcome : Option Chain
  cursor : Cursor
  report : Report
  log : List LogRecord

def runRule (p : Program) (id : Nat) (cursor : Cursor) : Result :=
  let (outcome, s) := p.callRule p.depthLimit id (.start cursor)
  ⟨outcome, s.cursor, s.report, s.log.reverse⟩

def run (p : Program) (cursor : Cursor) : Result := p.runRule p.start cursor

/-- Runs the start rule on a text from its start. The match may end before the text does. -/
def parse (p : Program) (text : String) : Result := p.run (.start text)

/-- What is said of a text that does not match. -/
def failureMessage (report : Report) : String :=
  "input doesn't match (got as far as byte " ++ toString report.furthest ++ ")" ++
    if report.depthLimitReached then
      "; rules were nested too deeply (is the grammar left-recursive?)" else ""

end Program

end PegGrammar
