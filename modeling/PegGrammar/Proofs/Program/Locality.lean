import Mathlib
import PegGrammar.Proofs.Cursor.Shifted
import PegGrammar.Proofs.Program.Lockstep
import PegGrammar.Proofs.Program.Scriptless

/-!
# Runs depend on what follows only

A run from the middle of a text is the run on the rest of the text alone, moved along by the width of what stands
in front: both match or both fail, with the same blocks open in the end, and each token says the same of a span
that lies as much further on. The two runs are in lockstep. Wherever a run uses an offset, it either compares it
with another one of the same run or gives it away in a token, so the distance between the runs does not show.

Only a pattern that looks behind could tell what stands in front, and a script could look at anything; there are
neither in what follows.
-/

namespace PegGrammar

/-! ### Tokens further on -/

def Piece.shift (n : Nat) (piece : Piece) : Piece :=
  { piece with start := n + piece.start, stop := n + piece.stop }

namespace Token

mutual

/-- A token and all tokens below it, `n` bytes further on. -/
def shift (n : Nat) : Token → Token
  | ⟨piece, children⟩ => ⟨piece.shift n, shiftChain n children⟩

def shiftChain (n : Nat) : Chain → Chain
  | [] => []
  | token :: chain => token.shift n :: shiftChain n chain

end

theorem shiftChain_eq_map (n : Nat) (chain : Chain) : shiftChain n chain = chain.map (shift n) := by
  induction chain with
  | nil => rfl
  | cons token chain ih => simp [shiftChain, ih]

theorem shift_leaf (n : Nat) (kind value : String) (start stop : Nat) :
    (leaf kind value start stop).shift n = leaf kind value (n + start) (n + stop) :=
  rfl

theorem shift_node (n : Nat) (kind value : String) (start stop : Nat) (children : Chain) :
    (node kind value start stop children).shift n =
      node kind value (n + start) (n + stop) (children.map (shift n)) := by
  simp [node, shift, Piece.shift, shiftChain_eq_map]

end Token

/-! ### States further on -/

/-- A state of a run, and one of the run without what stands in front. -/
structure Running.Shifted (front : List Char) (s t : Running) : Prop where
  cursor : s.cursor.Shifted front t.cursor
  /-- At the start neither run got anywhere. -/
  furthest : max (byteLength front) s.report.furthest = byteLength front + t.report.furthest
  depthLimitReached : s.report.depthLimitReached = t.report.depthLimitReached
  starting : s.starting = t.starting.map (fun (position, set) => (byteLength front + position, set))

namespace Running.Shifted

variable {front : List Char} {s t : Running}

theorem position (h : s.Shifted front t) : s.position = byteLength front + t.position :=
  h.cursor.position

theorem reached (h : s.Shifted front t) (n : Nat) :
    (s.reached (byteLength front + n)).Shifted front (t.reached n) := by
  refine ⟨h.cursor, ?_, h.depthLimitReached, h.starting⟩
  have hfurthest := h.furthest
  simp only [Running.reached]
  omega

theorem movedTo (h : s.Shifted front t) {c d : Cursor} (hcd : c.Shifted front d) :
    (s.movedTo c).Shifted front (t.movedTo d) :=
  ⟨hcd, h.furthest, h.depthLimitReached, h.starting⟩

theorem record (h : s.Shifted front t) (level : LogLevel) (message message' : String) :
    (s.record level message).Shifted front (t.record level message') :=
  ⟨h.cursor, h.furthest, h.depthLimitReached, h.starting⟩

end Running.Shifted

namespace Program

variable {p : Program} {front : List Char}

/-! ### Leaves -/

theorem Paired.landed {s t : Running} (h : s.Shifted front t) {c d : Cursor} (hcd : c.Shifted front d)
    {tokens tokens' : Chain} (htokens : tokens = tokens'.map (Token.shift (byteLength front))) :
    Paired (Running.Shifted front) (Token.shift (byteLength front))
      (some tokens, ((s.reached s.position).movedTo c).reached c.position)
      (some tokens', ((t.reached t.position).movedTo d).reached d.position) := by
  rw [htokens, h.position, hcd.position]
  exact .matched (((h.reached _).movedTo hcd).reached _)

theorem Paired.tried {s t : Running} (h : s.Shifted front t) :
    Paired (Running.Shifted front) (Token.shift (byteLength front))
      (none, s.reached s.position) (none, t.reached t.position) := by
  rw [h.position]
  exact .failed (h.reached _)

theorem shifted_literalStep (text : String) :
    InStep (Running.Shifted front) (Token.shift (byteLength front)) (literalStep text)
      (literalStep text) := by
  intro s t h
  rw [literalStep, literalStep]
  simp only [Running.cursor_reached]
  rcases h.cursor.eat? text with ⟨hs, ht⟩ | ⟨c, d, hs, ht, hcd⟩
  · rw [hs, ht]
    exact .tried h
  · rw [hs, ht]
    apply Paired.landed h hcd
    simp [Token.shift_leaf, h.position, hcd.position]

theorem shifted_regexStep {pattern : Pattern} (hlooks : pattern.looksBehind = false) :
    InStep (Running.Shifted front) (Token.shift (byteLength front)) (regexStep pattern)
      (regexStep pattern) := by
  intro s t h
  rw [regexStep, regexStep]
  simp only [Running.cursor_reached, Pattern.match?, hlooks, Bool.false_eq_true, if_false,
    h.cursor.remaining]
  cases pattern.find? t.cursor.remaining with
  | none => exact .tried h
  | some bounds =>
    have hmoved := h.cursor.advance (bounds.2.offset - bounds.1.offset)
    apply Paired.landed h hmoved
    simp [Token.shift_leaf, h.position, hmoved.position]

theorem shifted_eofStep :
    InStep (Running.Shifted front) (Token.shift (byteLength front)) eofStep eofStep := by
  intro s t h
  rw [eofStep, eofStep]
  rw [Running.cursor_reached, Running.cursor_reached, h.cursor.isDone, h.position]
  split
  · exact .matched_nothing (h.reached _)
  · exact .failed (h.reached _)

theorem shifted_indentation :
    InStep (Running.Shifted front) (Token.shift (byteLength front)) indentation indentation := by
  intro s t h
  have hposition := h.position
  rw [indentation, indentation]
  dsimp only
  rw [Running.cursor_reached, Running.cursor_reached, h.cursor.remaining, h.cursor.innermost,
    h.cursor.indents]
  split
  · apply Paired.landed h
    · rw [hposition, Nat.add_assoc]
      exact h.cursor.setPosition _
    · simp [Token.shift_leaf, hposition, Nat.add_assoc]
  split
  · apply Paired.landed h
    · rw [hposition, Nat.add_assoc]
      exact (h.cursor.pushIndent _).setPosition _
    · simp [Token.shift_leaf, hposition, Nat.add_assoc]
  split
  · apply Paired.landed h
    · rw [hposition, Nat.add_assoc]
      exact (h.cursor.popIndents _).setPosition _
    · simp [Token.shift_leaf, hposition, Nat.add_assoc]
  · rw [hposition]
    exact .failed ((h.reached _).record _ _ _)

/-! ### Alternatives -/

/-- The text starts with the same literals, and what is kept of them is kept for the same place. -/
theorem shifted_worthTrying (first : Option BitSet) {s t : Running} (h : s.Shifted front t) :
    (p.worthTrying first s).1 = (p.worthTrying first t).1 ∧
      (p.worthTrying first s).2.Shifted front (p.worthTrying first t).2 := by
  have hnoted : ∀ set : BitSet, Running.Shifted front
      { s with starting := some (s.position, set) } { t with starting := some (t.position, set) } := by
    intro set
    refine ⟨h.cursor, h.furthest, h.depthLimitReached, ?_⟩
    rw [h.position]
    rfl
  cases first with
  | none => exact ⟨rfl, h⟩
  | some first =>
    rw [worthTrying, worthTrying, mayStart, mayStart, h.starting, h.cursor.remaining]
    cases t.starting with
    | none => exact ⟨rfl, hnoted _⟩
    | some kept =>
      have hsame : byteLength front + kept.1 = s.position ↔ kept.1 = t.position := by
        rw [h.position, Nat.add_left_cancel_iff]
      simp only [Option.map_some, hsame]
      split
      · exact ⟨rfl, h⟩
      · exact ⟨rfl, hnoted _⟩

/-! ### Rules -/

theorem shifted_traced (depth : Nat) {message message' : String} {s t : Running} (h : s.Shifted front t) :
    (p.traced depth message s).Shifted front (p.traced depth message' t) := by
  rw [traced, traced]
  split
  · exact h.record _ _ _
  · exact h

theorem shifted_tooDeep {rule rule' : CompiledRule} {s t : Running} (h : s.Shifted front t) :
    (p.tooDeep rule s).Shifted front (p.tooDeep rule' t) := by
  rw [tooDeep, tooDeep, h.depthLimitReached]
  dsimp only
  split
  · exact ⟨h.cursor, h.furthest, rfl, h.starting⟩
  · exact ⟨h.cursor, h.furthest, rfl, h.starting⟩

theorem wrap_shifted {rule rule' : CompiledRule} (hname : rule'.name = rule.name) {s t next next' : Running}
    (tokens : Chain) (h : s.Shifted front t) (hnext : next.Shifted front next') :
    p.wrap rule s.position (tokens.map (Token.shift (byteLength front))) next.cursor =
      (p.wrap rule' t.position tokens next'.cursor).map (Token.shift (byteLength front)) := by
  rw [wrap, wrap, hasOwnToken, hasOwnToken, hname, h.position, hnext.cursor.position, hnext.cursor.textBetween]
  split
  · simp [Token.shift_node]
  · rfl

/-- No pattern of the program looks at what stands in front of a match. -/
def LooksAhead (p : Program) : Prop :=
  ∀ pattern, p.Contains (.regex pattern) → pattern.looksBehind = false

theorem lockstep_shifted (hmoves : p.scripts.OnlyMoves) (hscripts : p.Scriptless) (hlooks : p.LooksAhead) :
    p.Lockstep p (byteLength front) (Running.Shifted front) (Token.shift (byteLength front)) Eq where
  rules := CompiledRule.alike_refl p.rules
  depthLimit := rfl
  moves := hmoves
  moves' := hmoves
  position h := h.position
  length h := h.cursor.length
  restored h hnext hs ht := hnext.movedTo (h.cursor.restore hs ht)
  worthTrying {first _ _ _} hfirst h := hfirst ▸ shifted_worthTrying first h
  literal _ := shifted_literalStep _
  regex hin := shifted_regexStep (hlooks _ hin)
  eof := shifted_eofStep
  indentation := shifted_indentation
  script hin := by
    obtain ⟨rule, hrule, hwithin⟩ := hin
    exact (hscripts rule hrule _ _ hwithin).elim
  traced depth _ _ h := shifted_traced depth h
  tooDeep _ h := shifted_tooDeep h
  wrapped tokens hname h hnext := wrap_shifted hname tokens h hnext

/-- A run, and the run on a text without the first `n` bytes: both match or both fail, and everything that has
to do with offsets is `n` bytes further on. -/
structure Result.Shifted (n : Nat) (result other : Result) : Prop where
  outcome : result.outcome = other.outcome.map (Token.shiftChain n)
  position : result.cursor.position = n + other.cursor.position
  indents : result.cursor.indents = other.cursor.indents
  furthest : max n result.report.furthest = n + other.report.furthest
  depthLimitReached : result.report.depthLimitReached = other.report.depthLimitReached

/-- Where a program has neither scripts nor patterns that look behind, a run depends on the text that is left and
on the open blocks only. It is the run on that text alone, moved along. -/
theorem run_of_remaining (hscripts : p.Scriptless) (hlooks : p.LooksAhead) {cursor alone : Cursor}
    (halone : alone.place = .start cursor.remaining) (hindents : alone.indents = cursor.indents) (id : Nat) :
    (p.runRule id cursor).Shifted cursor.position (p.runRule id alone) := by
  have hcursor : cursor.Shifted cursor.place.read alone := by
    refine ⟨?_, Cursor.opened_eq_iff.1 hindents.symm⟩
    rw [halone]
    exact cursor.place.shifted_start
  have hstart : (Running.start cursor).Shifted cursor.place.read (.start alone) :=
    ⟨hcursor, Nat.max_eq_left (Nat.zero_le _), rfl, rfl⟩
  have hstep := (lockstep_shifted (p := p.withScripts .none) ScriptEngine.onlyMoves_none hscripts
    hlooks).callRule p.depthLimit id _ _ hstart
  obtain ⟨houtcome, hafter⟩ := hstep
  have hwidth : byteLength cursor.place.read = cursor.position := cursor.place.offset_eq.symm
  have hshift : List.map (Token.shift cursor.position) = Token.shiftChain cursor.position := by
    funext chain
    rw [Token.shiftChain_eq_map]
  rw [hwidth, hshift] at houtcome
  have hposition := hafter.position
  have hfurthest := hafter.furthest
  rw [hwidth] at hposition hfurthest
  rw [← runRule_withScripts hscripts .none, ← runRule_withScripts hscripts .none]
  exact ⟨houtcome, hposition, hafter.cursor.indents, hfurthest, hafter.depthLimitReached⟩

/-- The letter `x`, as the pattern of that text is read. -/
def letter : Pattern where
  source := "x"
  looksBehind := false
  tree := .concat [.look .textStart, .group none (.char 'x')]
  machine := Pattern.Node.machine (.concat [.look .textStart, .group none (.char 'x')])
  machine_eq := rfl

/-- A program for indented entries, each a dash, which is skipped where none stands, or a letter. -/
def entries : Program where
  rules := [⟨"list", .repeated (.rule 1)⟩,
    ⟨"entry", .sequence [.indent, .choice [(some ⟨0, [2]⟩, .literal "-"), (none, .regex letter)],
      .literal ";"]⟩]
  start := 0
  nesting := 3
  literals := ⟨0, [(1, "-")], 1⟩
  scripts := .none
  config := { Config.default with parseTree := true, maxDepth := 3 }
  fingerprint := ⟨[]⟩

/-- Two entries, of which the second one closes the block that the first one is in. -/
def entryTokens : Chain :=
  [.node "list" " x;-;" 0 5
    [.node "entry" " x;" 0 3
      [.leaf currentIndentKind " " 0 1, .leaf regexKind "x" 1 2, .leaf ";" ";" 2 3],
    .node "entry" "-;" 3 5
      [.leaf dedentKind "" 3 3, .leaf currentIndentKind "" 3 3, .leaf "-" "-" 3 4, .leaf ";" ";" 4 5]]]

/-- A cursor behind a letter of two bytes, in a block that was not the first one to be opened. -/
def behindLetter : Cursor :=
  ((((Cursor.start "é x;-;").setPosition 2).pushIndent "\t").popIndents 1).pushIndent " "

theorem run_of_remaining_entries :
    entries.Scriptless ∧ entries.LooksAhead ∧
      ((Cursor.start " x;-;").pushIndent " ").place = .start behindLetter.remaining ∧
      ((Cursor.start " x;-;").pushIndent " ").indents = behindLetter.indents ∧
      (entries.runRule 0 behindLetter).outcome = some (Token.shiftChain 2 entryTokens) ∧
      (entries.runRule 0 behindLetter).cursor.position = 2 + 5 := by
  have hnodes : ∀ q, entries.Contains q → q ∈ entries.rules.flatMap (fun rule => rule.body.nodes) := by
    rintro q ⟨rule, hrule, hwithin⟩
    exact List.mem_flatMap.2 ⟨rule, hrule, hwithin.mem_nodes⟩
  have hscripts : entries.Scriptless := by
    intro rule hrule source handle hwithin
    have hmem := hnodes _ ⟨rule, hrule, hwithin⟩
    simp [entries, Parser.nodes, Parser.nodesOfItems, Parser.nodesOfBranches] at hmem
  have hlooks : entries.LooksAhead := by
    intro pattern hin
    have hletter : pattern = letter := by
      simpa [entries, Parser.nodes, Parser.nodesOfItems, Parser.nodesOfBranches] using hnodes _ hin
    rw [hletter]
    rfl
  have halone : ((Cursor.start " x;-;").pushIndent " ").place = .start behindLetter.remaining := by cbv
  have hindents : ((Cursor.start " x;-;").pushIndent " ").indents = behindLetter.indents := by cbv
  have houtcome : (entries.runRule 0 ((Cursor.start " x;-;").pushIndent " ")).outcome =
      some entryTokens := by cbv
  have hposition : (entries.runRule 0 ((Cursor.start " x;-;").pushIndent " ")).cursor.position = 5 := by
    cbv
  have hbehind : behindLetter.position = 2 := by cbv
  have hshifted := run_of_remaining hscripts hlooks halone hindents 0
  rw [hbehind] at hshifted
  refine ⟨hscripts, hlooks, halone, hindents, ?_, ?_⟩
  · rw [hshifted.outcome, houtcome]
    rfl
  · rw [hshifted.position, hposition]

end Program

end PegGrammar
