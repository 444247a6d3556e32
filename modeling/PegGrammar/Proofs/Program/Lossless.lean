import Mathlib
import PegGrammar.Proofs.Cursor.Standing
import PegGrammar.Proofs.Program.Chaining
import PegGrammar.Proofs.Program.Translation

/-!
# Tokens lose no text

A match moves the cursor over some text, and its tokens tell all of it: they lie one behind the other, the first
begins where the cursor was and the last ends where it is. Text is only passed where a leaf makes a token of it,
and whatever comes back drops the tokens of what it took back, so it is enough to look at the leaves and to put
chains together. A rule that gets a token of its own puts the text that it matched on it; below it is a chain
that tells this text again.

What a regular expression matched is the only value that is not bound to be the text of its token.
-/

namespace PegGrammar

namespace Token

/-- Tokens that lie one behind the other between two offsets, with nothing in between. -/
def Tiles (start : Nat) : Chain → Nat → Prop
  | [], stop => start = stop
  | token :: chain, stop =>
    token.piece.start = start ∧ start ≤ token.piece.stop ∧ Tiles token.piece.stop chain stop

theorem Tiles.le {start stop : Nat} {chain : Chain} (h : Tiles start chain stop) : start ≤ stop := by
  induction chain generalizing start with
  | nil => exact Nat.le_of_eq h
  | cons token chain ih => exact Nat.le_trans h.2.1 (ih h.2.2)

theorem Tiles.append {start mid stop : Nat} {chain more : Chain} (h : Tiles start chain mid)
    (hmore : Tiles mid more stop) : Tiles start (chain ++ more) stop := by
  induction chain generalizing start with
  | nil =>
    cases h
    exact hmore
  | cons token chain ih => exact ⟨h.1, h.2.1, ih h.2.2⟩

theorem tiles_singleton {token : Token} (h : token.piece.start ≤ token.piece.stop) :
    Tiles token.piece.start [token] token.piece.stop :=
  ⟨rfl, h, rfl⟩

theorem tiles_replicate (kind value : String) (start count : Nat) :
    Tiles start (List.replicate count (leaf kind value start start)) start := by
  induction count with
  | zero => rfl
  | succ count ih => exact ⟨rfl, Nat.le_refl _, ih⟩

end Token

namespace Program

theorem Scriptless.of_contains {p : Program} (h : p.Scriptless) {q : Parser} (hq : p.Contains q) :
    q.Scriptless := by
  obtain ⟨rule, hrule, hwithin⟩ := hq
  exact fun source handle hscript => h rule hrule source handle (.trans hscript hwithin)

/-- A token that is accounted for by a source: what it says of the text is there, as it is for all tokens below
it, which tile it. The tokens of regular expressions have what these matched as their value. -/
inductive Accounts (p : Program) (source : List Char) : Token → Prop
  | literal {text : String} {start stop : Nat} :
      p.Contains (.literal text) → Stands source start stop text →
      Accounts p source (.leaf text text start stop)
  | regex {pattern : Pattern} {cursor moved : Cursor} {value : String} :
      p.Contains (.regex pattern) → cursor.place.source = source →
      pattern.match? cursor = some (value, moved) →
      Accounts p source (.leaf regexKind value cursor.position moved.position)
  | indentation {kind value : String} {start stop : Nat} :
      kind ∈ [currentIndentKind, indentKind, dedentKind] → Stands source start stop value →
      Accounts p source (.leaf kind value start stop)
  | rule {rule : CompiledRule} {value : String} {start stop : Nat} {children : Chain} :
      rule ∈ p.rules → p.hasOwnToken rule = true → Stands source start stop value →
      Token.Tiles start children stop → (∀ child ∈ children, Accounts p source child) →
      Accounts p source (.node rule.name value start stop children)

/-- Tokens that tell all of the text between two cursors. -/
structure Covers (p : Program) (c : Cursor) (tokens : Chain) (d : Cursor) : Prop where
  tiles : Token.Tiles c.position tokens d.position
  accounted : ∀ token ∈ tokens, p.Accounts c.place.source token

theorem Covers.nil {p : Program} {c d : Cursor} (h : d.position = c.position) : p.Covers c [] d :=
  ⟨h.symm, fun _ hmem => by cases hmem⟩

theorem Covers.append {p : Program} {c d e : Cursor} {tokens more : Chain}
    (h : p.Covers c tokens d) (hsource : d.place.source = c.place.source)
    (hmore : p.Covers d more e) : p.Covers c (tokens ++ more) e := by
  refine ⟨h.tiles.append hmore.tiles, fun token hmem => ?_⟩
  rcases List.mem_append.1 hmem with hmem | hmem
  · exact h.accounted token hmem
  · exact hsource ▸ hmore.accounted token hmem

end Program

namespace Running

/-- A run that got to where it is, and to no offset inside of a character. -/
structure Tracked (s : Running) : Prop where
  position_le : s.position ≤ s.report.furthest
  boundary : ∃ place : Place, place.source = s.cursor.place.source ∧ place.offset = s.report.furthest

theorem Tracked.reached {s : Running} (h : s.Tracked) : (s.reached s.position).Tracked := by
  have hsame : s.reached s.position = s := by
    rw [Running.reached, Nat.max_eq_left h.position_le]
  rw [hsame]
  exact h

theorem Tracked.of_eq {s next : Running} (h : s.Tracked) (hcursor : next.cursor = s.cursor)
    (hfurthest : next.report.furthest = s.report.furthest) : next.Tracked := by
  refine ⟨?_, ?_⟩
  · rw [Running.position, hcursor, hfurthest]
    exact h.position_le
  · rw [hcursor, hfurthest]
    exact h.boundary

theorem Tracked.landed {s : Running} (h : s.Tracked) {c : Cursor}
    (hsource : c.place.source = s.cursor.place.source) :
    ((s.movedTo c).reached c.position).Tracked := by
  refine ⟨Nat.le_max_right _ _, ?_⟩
  obtain ⟨place, hplace, hoffset⟩ := h.boundary
  rcases Nat.le_total s.report.furthest c.position with hle | hle
  · exact ⟨c.place, rfl, (Nat.max_eq_right hle).symm⟩
  · exact ⟨place, hplace.trans hsource.symm, hoffset.trans (Nat.max_eq_left hle).symm⟩

theorem Tracked.returned {s next : Running} (h : s.Tracked) (hnext : next.Tracked)
    (hextends : s.cursor.Extends next.cursor) (hreport : s.report.Le next.report) :
    (next.restore s.cursor.checkpoint).Tracked := by
  have hreturns := hextends.returns_restore
  refine ⟨?_, ?_⟩
  · show (next.cursor.restore s.cursor.checkpoint).place.offset ≤ _
    rw [hreturns.place]
    exact Nat.le_trans h.position_le hreport.furthest
  · obtain ⟨place, hplace, hoffset⟩ := hnext.boundary
    exact ⟨place, hplace.trans (hextends.source.trans (congrArg Place.source hreturns.place).symm), hoffset⟩

end Running

namespace Program

variable {p : Program}

/-- A run that came from one state to another and passed some text, of which tokens tell everything. -/
structure Passed (p : Program) (s : Running) (tokens : Chain) (next : Running) : Prop where
  extended : s.cursor.Extends next.cursor
  reported : s.report.Le next.report
  covers : p.Covers s.cursor tokens next.cursor
  tracked : s.Tracked → next.Tracked

theorem Passed.refl (s : Running) : p.Passed s [] s := ⟨.refl _, .refl _, .nil rfl, id⟩

theorem Passed.trans {s mid next : Running} {tokens more : Chain} (h : p.Passed s tokens mid)
    (hmore : p.Passed mid more next) : p.Passed s (tokens ++ more) next :=
  ⟨h.extended.trans hmore.extended, h.reported.trans hmore.reported,
    h.covers.append h.extended.source hmore.covers, hmore.tracked ∘ h.tracked⟩

theorem Passed.restored {s next : Running} {tokens : Chain} (h : p.Passed s tokens next) :
    p.Passed s [] (next.restore s.cursor.checkpoint) :=
  have hreturns := h.extended.returns_restore
  ⟨hreturns.toExtends, h.reported, .nil (congrArg Place.offset hreturns.place),
    fun hs => hs.returned (h.tracked hs) h.extended h.reported⟩

/-- A step whose tokens tell all of the text that it passes. If there is no match, none is passed. -/
def Lossless (p : Program) (step : Step) : Prop :=
  ∀ s, p.Passed s ((step s).1.getD []) (step s).2

theorem Passed.stayed {s next : Running} (hcursor : next.cursor = s.cursor)
    (hreport : s.report.Le next.report) (htracked : s.Tracked → next.Tracked) :
    p.Passed s [] next := by
  refine ⟨?_, hreport, .nil (congrArg Cursor.position hcursor), htracked⟩
  rw [hcursor]
  exact .refl _

theorem Passed.landed {s : Running} {moved : Cursor} {tokens : Chain}
    (hextends : s.cursor.Extends moved) (hcovers : p.Covers s.cursor tokens moved) :
    p.Passed s tokens (((s.reached s.position).movedTo moved).reached moved.position) where
  extended := hextends
  reported := (s.report_le_reached _).trans (((s.reached s.position).movedTo moved).report_le_reached _)
  covers := hcovers
  tracked := fun hs => hs.reached.landed hextends.source

theorem Passed.tried (s : Running) : p.Passed s [] (s.reached s.position) :=
  .stayed rfl (s.report_le_reached _) Running.Tracked.reached

/-! ### Leaves -/

theorem lossless_literalStep {text : String} (h : p.Contains (.literal text)) :
    p.Lossless (literalStep text) := by
  intro s
  rw [literalStep]
  split
  · exact .tried s
  · rename_i moved heat
    have hstands := Cursor.stands_eat? heat
    refine .landed (Cursor.extends_eat? heat) ⟨Token.tiles_singleton hstands.le, ?_⟩
    exact List.forall_mem_singleton.2 (.literal h hstands)

theorem lossless_regexStep {pattern : Pattern} (h : p.Contains (.regex pattern)) :
    p.Lossless (regexStep pattern) := by
  intro s
  rw [regexStep]
  split
  · exact .tried s
  · rename_i value moved hmatch
    have haccounted := Accounts.regex (p := p) h rfl hmatch
    obtain ⟨n, rfl⟩ := exists_advance_of_match? hmatch
    have hle := Cursor.position_le_advance s.cursor n
    refine .landed (Cursor.extends_advance s.cursor n) ⟨Token.tiles_singleton hle, ?_⟩
    exact List.forall_mem_singleton.2 haccounted

theorem lossless_eofStep : p.Lossless eofStep := by
  intro s
  rw [eofStep]
  split
  · exact .tried s
  · exact .tried s

theorem Passed.indented {s : Running} {c : Cursor} {tokens : Chain} {run rest : List Char}
    (hextends : s.cursor.Extends c) (hplace : c.place = s.cursor.place)
    (hrest : s.cursor.remaining = run ++ rest)
    (htiles : Token.Tiles s.position tokens (s.position + byteLength run))
    (haccounted : ∀ token ∈ tokens, p.Accounts s.cursor.place.source token) :
    p.Passed s tokens
      (((s.reached s.position).movedTo (c.setPosition (s.position + byteLength run))).reached
        (c.setPosition (s.position + byteLength run)).position) := by
  have hposition : (c.setPosition (s.position + byteLength run)).position =
      s.position + byteLength run :=
    Cursor.position_setPosition_of_rest hplace hrest
  refine .landed (hextends.trans (Cursor.extends_setPosition c _)) ⟨?_, haccounted⟩
  rw [hposition]
  exact htiles

theorem stands_split {c : Cursor} {current : String} {run rest : List Char}
    (hrest : c.remaining = run ++ rest) (hbegins : current.toList <+: run) :
    Stands c.place.source c.position (c.position + current.utf8ByteSize) current ∧
      Stands c.place.source (c.position + current.utf8ByteSize) (c.position + byteLength run)
        (String.ofList (run.drop current.toList.length)) := by
  obtain ⟨added, rfl⟩ := hbegins
  rw [List.drop_left, ← byteLength_toList, byteLength_append, ← Nat.add_assoc]
  refine ⟨?_, Place.stands_behind hrest⟩
  rw [List.append_assoc] at hrest
  have hcurrent := Place.stands_of_rest hrest
  rw [String.ofList_toList] at hcurrent
  exact hcurrent

theorem lossless_indentation : p.Lossless indentation := by
  intro s
  have hrest : s.cursor.remaining =
      s.cursor.remaining.takeWhile isIndent ++ s.cursor.remaining.dropWhile isIndent :=
    List.takeWhile_append_dropWhile.symm
  have hwhole := Place.stands_of_rest hrest
  rw [indentation]
  dsimp only
  split
  · refine .indented (.refl _) rfl hrest (Token.tiles_singleton hwhole.le) ?_
    exact List.forall_mem_singleton.2 (.indentation (by simp) hwhole)
  split
  · rename_i hbegins
    obtain ⟨hcurrent, hadded⟩ := stands_split hrest (List.isPrefixOf_iff_prefix.1 hbegins)
    refine .indented (Cursor.extends_pushIndent _ _) (Cursor.place_pushIndent _ _) hrest
      ⟨rfl, hcurrent.le, rfl, hadded.le, rfl⟩ ?_
    exact List.forall_mem_cons.2 ⟨.indentation (by simp) hcurrent,
      List.forall_mem_singleton.2 (.indentation (by simp) hadded)⟩
  split
  · rename_i closed _
    refine .indented (Cursor.extends_popIndents _ _) (Cursor.place_popIndents _ _) hrest ?_ ?_
    · exact (Token.tiles_replicate _ _ _ closed).append (Token.tiles_singleton hwhole.le)
    · intro token hmem
      rcases List.mem_append.1 hmem with hmem | hmem
      · rw [List.eq_of_mem_replicate hmem]
        exact .indentation (by simp) (Place.stands_empty s.cursor.place)
      · rw [List.mem_singleton.1 hmem]
        exact .indentation (by simp) hwhole
  · exact .stayed rfl (s.report_le_reached _) (fun hs => hs.reached.of_eq rfl rfl)

/-! ### Rules -/

theorem passed_tooDeep (rule : CompiledRule) (s : Running) : p.Passed s [] (p.tooDeep rule s) := by
  have hcursor := cursor_tooDeep p rule s
  refine .stayed hcursor (p.report_le_tooDeep rule s) (fun hs => hs.of_eq hcursor ?_)
  rw [tooDeep]
  dsimp only
  split <;> rfl

theorem Covers.wrap {rule : CompiledRule} (hrule : rule ∈ p.rules) {c d : Cursor} {tokens : Chain}
    (hextends : c.Extends d) (h : p.Covers c tokens d) :
    p.Covers c (p.wrap rule c.position tokens d) d := by
  rw [Program.wrap]
  split
  · rename_i hown
    have hle := h.tiles.le
    refine ⟨Token.tiles_singleton hle, List.forall_mem_singleton.2 ?_⟩
    exact .rule hrule hown (hextends.stands_textBetween hle) h.tiles h.accounted
  · exact h

theorem Passed.wrapped {rule : CompiledRule} (hrule : rule ∈ p.rules) {s next : Running} {tokens : Chain}
    (h : p.Passed s tokens next) : p.Passed s (p.wrap rule s.position tokens next.cursor) next :=
  ⟨h.extended, h.reported, h.covers.wrap hrule h.extended, h.tracked⟩

/-- Whatever a program without scripts passes is told by its tokens. -/
theorem chains_passed (hscripts : p.Scriptless) : p.Chains p.Passed where
  refl := .refl
  trans := .trans
  restored := .restored
  silent := fun hcursor hreport =>
    .stayed hcursor (hreport ▸ .refl _) (fun hs => hs.of_eq hcursor (congrArg _ hreport))
  tooDeep := passed_tooDeep
  wrapped := fun hrule h => h.wrapped hrule
  literal := lossless_literalStep
  regex := lossless_regexStep
  eof := lossless_eofStep
  indentation := lossless_indentation
  script := fun hin => (hscripts.of_contains hin _ _ .root).elim

theorem lossless_callRule (hscripts : p.Scriptless) (room id : Nat) : p.Lossless (p.callRule room id) :=
  (chains_passed hscripts).callRule room id

/-- Tokens are lossless. Where a program without scripts matches, the tokens tile the text between where the
cursor was and where it is, and each of them is accounted for by the text, as are those below it. A run from the
start of a text gets at least to where it ends, and to no offset outside of the text or inside of a character. -/
theorem tokens_lossless (hscripts : p.Scriptless) :
    (∀ id cursor tokens, (p.runRule id cursor).outcome = some tokens →
      cursor.position ≤ (p.runRule id cursor).cursor.position ∧
      Token.Tiles cursor.position tokens (p.runRule id cursor).cursor.position ∧
      ∀ token ∈ tokens, p.Accounts cursor.place.source token) ∧
    ∀ text : String,
      (p.parse text).cursor.position ≤ (p.parse text).report.furthest ∧
      (p.parse text).report.furthest ≤ text.utf8ByteSize ∧
      ∃ before after, text.toList = before ++ after ∧
        byteLength before = (p.parse text).report.furthest := by
  constructor
  · intro id cursor tokens hmatch
    have hcovers := (lossless_callRule hscripts p.depthLimit id (.start cursor)).covers
    change (p.callRule p.depthLimit id (.start cursor)).1 = some tokens at hmatch
    rw [hmatch] at hcovers
    exact ⟨hcovers.tiles.le, hcovers.tiles, hcovers.accounted⟩
  · intro text
    have hstart : (Running.start (.start text)).Tracked :=
      ⟨Nat.le_refl _, .start text.toList, rfl, rfl⟩
    have hpassed := lossless_callRule hscripts p.depthLimit p.start (.start (.start text))
    have htracked := hpassed.tracked hstart
    obtain ⟨place, hplace, hoffset⟩ := htracked.boundary
    have hsource : place.source = text.toList := hplace.trans hpassed.extended.source
    have hcut : text.toList = place.read.reverse ++ place.rest := hsource.symm
    refine ⟨htracked.position_le, ?_, place.read.reverse, place.rest, hcut, ?_⟩
    · show (p.callRule p.depthLimit p.start (.start (.start text))).2.report.furthest ≤ _
      rw [← hoffset, ← byteLength_toList, ← hsource, Place.byteLength_source]
      exact Nat.le_add_right _ _
    · rw [byteLength_reverse, ← place.offset_eq]
      exact hoffset

/-- A program for lines of one letter, indented in blocks. -/
def lines : Program where
  rules := [⟨"text", .repeated (.rule 1)⟩, ⟨"line", .sequence [.indent, .literal "x", .literal ";"]⟩]
  start := 0
  nesting := 2
  literals := .empty 0
  scripts := .none
  config := { Config.default with parseTree := true, maxDepth := 3 }
  fingerprint := ⟨[]⟩

theorem scriptless_lines : lines.Scriptless := by
  intro rule hrule source handle hwithin
  have hnodes := hwithin.mem_nodes
  simp only [lines, List.mem_cons, List.not_mem_nil, or_false] at hrule
  rcases hrule with rfl | rfl
  all_goals simp [Parser.nodes, Parser.nodesOfItems] at hnodes

/-- Three lines, of which the second opens a block and the third closes it. -/
def lineTokens : Chain :=
  [.node "text" "x; x;x;" 0 7
    [.node "line" "x;" 0 2
      [.leaf currentIndentKind "" 0 0, .leaf "x" "x" 0 1, .leaf ";" ";" 1 2],
    .node "line" " x;" 2 5
      [.leaf currentIndentKind "" 2 2, .leaf indentKind " " 2 3, .leaf "x" "x" 3 4, .leaf ";" ";" 4 5],
    .node "line" "x;" 5 7
      [.leaf dedentKind "" 5 5, .leaf currentIndentKind "" 5 5, .leaf "x" "x" 5 6, .leaf ";" ";" 6 7]]]

theorem tokens_lossless_lines :
    lines.Scriptless ∧ (lines.parse "x; x;x;").outcome = some lineTokens ∧
      Token.Tiles 0 lineTokens 7 ∧
      (∀ token ∈ lineTokens, lines.Accounts "x; x;x;".toList token) ∧
      7 ≤ (lines.parse "x; x;x;").report.furthest := by
  have hscripts := scriptless_lines
  have houtcome : (lines.parse "x; x;x;").outcome = some lineTokens := by cbv
  have hposition : (lines.parse "x; x;x;").cursor.position = 7 := by cbv
  obtain ⟨hruns, hparses⟩ := tokens_lossless hscripts
  obtain ⟨-, htiles, haccounted⟩ := hruns 0 (.start "x; x;x;") lineTokens houtcome
  have hfurthest := (hparses "x; x;x;").1
  rw [hposition] at hfurthest
  exact ⟨hscripts, houtcome, hposition ▸ htiles, haccounted, hfurthest⟩

end Program

end PegGrammar
