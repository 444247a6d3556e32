import PegGrammar.Program.Run
import PegGrammar.Proofs.Script.Moves

/-!
# Failing leaves no trace

A parser that does not match leaves the cursor where it was, with the same blocks open. Leaves fail
before they move; a list, a lookahead and a script come back to a checkpoint; a repetition and a
reference fail with their part. Coming back works because every step, whether or not it matches, only
extends the cursor, so that is what the induction over the tree carries along.
-/

namespace PegGrammar

namespace Running

@[simp] theorem cursor_reached (s : Running) (n : Nat) : (s.reached n).cursor = s.cursor := rfl

end Running

namespace Program

/-- The result of a step that began at a cursor: it extends the cursor, and is back at it if there is
no match. -/
structure Restores (c : Cursor) (result : Option Chain × Running) : Prop where
  extended : c.Extends result.2.cursor
  returned : result.1 = none → c.Returns result.2.cursor

/-- A step that leaves no trace when it fails. -/
def Backtracks (step : Step) : Prop := ∀ s, Restores s.cursor (step s)

theorem Restores.of_returns {c : Cursor} {result : Option Chain × Running}
    (h : c.Returns result.2.cursor) : Restores c result :=
  ⟨h.toExtends, fun _ => h⟩

theorem Restores.of_match {c : Cursor} {tokens : Chain} {s : Running}
    (h : c.Extends s.cursor) : Restores c (some tokens, s) :=
  ⟨h, fun hnone => by cases hnone⟩

theorem Restores.of_restore {c : Cursor} {s : Running} (h : c.Extends s.cursor)
    (outcome : Option Chain) : Restores c (outcome, s.restore c.checkpoint) :=
  .of_returns h.returns_restore

/-! ### Leaves -/

theorem backtracks_literalStep (text : String) : Backtracks (literalStep text) := by
  intro s
  rw [literalStep]
  split
  · exact .of_returns (.refl s.cursor)
  · rename_i moved heat
    exact .of_match (Cursor.extends_eat? heat)

theorem exists_advance_of_match? {pattern : Pattern} {c moved : Cursor} {value : String}
    (h : pattern.match? c = some (value, moved)) : ∃ n, moved = c.advance n := by
  rw [Pattern.match?] at h
  split at h
  · obtain ⟨stop, -, heq⟩ := Option.map_eq_some_iff.1 h
    exact ⟨_, (congrArg Prod.snd heq).symm⟩
  · obtain ⟨bounds, -, heq⟩ := Option.map_eq_some_iff.1 h
    exact ⟨_, (congrArg Prod.snd heq).symm⟩

theorem backtracks_regexStep (pattern : Pattern) : Backtracks (regexStep pattern) := by
  intro s
  rw [regexStep]
  split
  · exact .of_returns (.refl s.cursor)
  · rename_i value moved hmatch
    obtain ⟨n, rfl⟩ := exists_advance_of_match? hmatch
    exact .of_match (Cursor.extends_advance s.cursor n)

theorem backtracks_eofStep : Backtracks eofStep := fun s => .of_returns (.refl s.cursor)

theorem backtracks_indentation : Backtracks indentation := by
  intro s
  rw [indentation]
  dsimp only
  split
  · exact .of_match (Cursor.extends_setPosition s.cursor _)
  split
  · have hpush := Cursor.extends_pushIndent s.cursor
      (String.ofList (s.cursor.remaining.takeWhile isIndent))
    exact .of_match (hpush.trans (Cursor.extends_setPosition _ _))
  split
  · rename_i closed _
    have hpop := Cursor.extends_popIndents s.cursor closed
    exact .of_match (hpop.trans (Cursor.extends_setPosition _ _))
  · exact .of_returns (.refl s.cursor)

theorem backtracks_scriptStep {p : Program} (hscripts : p.scripts.OnlyMoves) (source : String)
    (handle : Nat) : Backtracks (p.scriptStep source handle) := by
  intro s
  have hmoves := (hscripts handle s.cursor).toExtends
  rw [scriptStep]
  dsimp only
  split
  · rename_i tokens moved hrun
    rw [hrun] at hmoves
    exact .of_match hmoves
  · rename_i reason moved hrun
    rw [hrun] at hmoves
    exact .of_restore (s := ((s.record _ _).movedTo moved)) hmoves none

/-! ### Trees -/

@[simp] theorem cursor_worthTrying (p : Program) (first : Option BitSet) (s : Running) :
    (p.worthTrying first s).2.cursor = s.cursor := by
  cases first with
  | none => rfl
  | some first =>
    rw [worthTrying, mayStart]
    split
    · split <;> rfl
    · rfl

theorem restores_repeatFrom {step : Step} (hstep : Backtracks step) {c : Cursor} (fuel last : Nat)
    (found : List Chain) (s : Running) (hc : c.Extends s.cursor) :
    Restores c (repeatFrom step fuel last found s) := by
  induction fuel generalizing last found s with
  | zero => exact .of_match hc
  | succ fuel ih =>
    rw [repeatFrom]
    dsimp only
    split
    · split
      · rename_i tokens next hmatch
        have hnext := (hstep s).extended
        rw [hmatch] at hnext
        exact ih _ _ next (hc.trans hnext)
      · rename_i next hfail
        have hnext := (hstep s).extended
        rw [hfail] at hnext
        exact .of_match (hc.trans hnext)
    · exact .of_match hc

theorem backtracks_repeatStep {step : Step} (hstep : Backtracks step) :
    Backtracks (repeatStep step) := by
  intro s
  have hs := hstep s
  rw [repeatStep]
  split
  · rename_i next hfail
    rw [hfail] at hs
    exact .of_returns (hs.returned rfl)
  · rename_i tokens next hmatch
    rw [hmatch] at hs
    exact restores_repeatFrom hstep _ _ _ next hs.extended

section

variable {p : Program} {call : Nat → Step}

mutual

/-- A parser leaves no trace when it fails, if the rules that it calls do not. -/
theorem backtracks_node (hscripts : p.scripts.OnlyMoves) (hcall : ∀ id, Backtracks (call id)) :
    (parser : Parser) → Backtracks (node p call parser)
  | .literal text => backtracks_literalStep text
  | .regex pattern => backtracks_regexStep pattern
  | .eof => backtracks_eofStep
  | .indent => backtracks_indentation
  | .sequence items => fun s => by
    rw [node]
    exact restores_runItems hscripts hcall items [] s (.refl s.cursor)
  | .repeated body => by
    rw [node]
    exact backtracks_repeatStep (backtracks_node hscripts hcall body)
  | .choice branches => fun s => by
    rw [node]
    exact restores_runBranches hscripts hcall branches s (.refl s.cursor)
  | .ahead body => fun s => by
    rw [node]
    exact .of_restore (backtracks_node hscripts hcall body s).extended _
  | .notAhead body => fun s => by
    rw [node]
    exact .of_restore (backtracks_node hscripts hcall body s).extended _
  | .optional body => fun s => by
    have hbody := (backtracks_node hscripts hcall body s).extended
    rw [node]
    dsimp only
    split
    · rename_i tokens next hmatch
      rw [hmatch] at hbody
      exact .of_match hbody
    · rename_i next hfail
      rw [hfail] at hbody
      exact .of_restore hbody _
  | .script source handle => backtracks_scriptStep hscripts source handle
  | .rule id => hcall id

theorem restores_runItems (hscripts : p.scripts.OnlyMoves) (hcall : ∀ id, Backtracks (call id))
    {c : Cursor} : (items : List Parser) → (found : List Chain) → (s : Running) →
      c.Extends s.cursor → Restores c (runItems p call c.checkpoint found items s)
  | [], _, _, hc => by
    rw [runItems]
    exact .of_match hc
  | item :: items, found, s, hc => by
    have hitem := (backtracks_node hscripts hcall item s).extended
    rw [runItems]
    dsimp only
    split
    · rename_i tokens next hmatch
      rw [hmatch] at hitem
      exact restores_runItems hscripts hcall items _ next (hc.trans hitem)
    · rename_i next hfail
      rw [hfail] at hitem
      exact .of_restore (hc.trans hitem) none

theorem restores_runBranches (hscripts : p.scripts.OnlyMoves)
    (hcall : ∀ id, Backtracks (call id)) {c : Cursor} :
    (branches : List (Option BitSet × Parser)) → (s : Running) → c.Returns s.cursor →
      Restores c (runBranches p call c.checkpoint branches s)
  | [], _, hc => by
    rw [runBranches]
    exact .of_returns hc
  | (first, branch) :: branches, s, hc => by
    have hcursor := cursor_worthTrying p first s
    rw [runBranches]
    dsimp only
    split
    · rename_i skipped hskip
      rw [hskip] at hcursor
      exact restores_runBranches hscripts hcall branches skipped (hcursor ▸ hc)
    · rename_i tried htry
      rw [htry] at hcursor
      have htried : c.Returns tried.cursor := hcursor ▸ hc
      have hbranch := (backtracks_node hscripts hcall branch tried).extended
      split
      · rename_i tokens next hmatch
        rw [hmatch] at hbranch
        exact .of_match (htried.toExtends.trans hbranch)
      · rename_i next hfail
        rw [hfail] at hbranch
        exact restores_runBranches hscripts hcall branches _
          (htried.toExtends.trans hbranch).returns_restore

end

end

/-! ### Rules -/

@[simp] theorem cursor_traced (p : Program) (depth : Nat) (message : String) (s : Running) :
    (p.traced depth message s).cursor = s.cursor := by
  rw [traced]
  split <;> rfl

@[simp] theorem cursor_tooDeep (p : Program) (rule : CompiledRule) (s : Running) :
    (p.tooDeep rule s).cursor = s.cursor := by
  rw [tooDeep]
  dsimp only
  split <;> rfl

/-- A rule leaves no trace when it fails, however many more may be nested inside of it. -/
theorem backtracks_callRule {p : Program} (hscripts : p.scripts.OnlyMoves) (room : Nat) :
    ∀ id, Backtracks (p.callRule room id) := by
  induction room with
  | zero =>
    intro id s
    rw [callRule]
    split
    · exact .of_returns (.refl s.cursor)
    · rename_i rule _
      refine .of_returns ?_
      rw [cursor_tooDeep]
      exact .refl s.cursor
  | succ room ih =>
    intro id s
    rw [callRule]
    split
    · exact .of_returns (.refl s.cursor)
    · rename_i rule _
      dsimp only
      have hbody := backtracks_node hscripts ih rule.body
        (p.traced (p.depthLimit - (room + 1)) ("> " ++ rule.name ++ " @ " ++ toString s.position) s)
      rw [cursor_traced] at hbody
      refine ⟨?_, fun hnone => ?_⟩
      · rw [cursor_traced]
        exact hbody.extended
      · rw [cursor_traced]
        exact hbody.returned (Option.map_eq_none_iff.1 hnone)

/-- A parser or a rule that does not match leaves the position, the innermost block and the list of
open blocks as they were, wherever it is run and however deeply rules are nested already. Lookaheads do
so in any case. It is assumed that scripts are functions, and that they move the cursor by its own moves. -/
theorem failure_leaves_cursor (p : Program) (hscripts : p.scripts.OnlyMoves) :
    (∀ room parser (s : Running), (p.node (p.callRule room) parser s).1 = none →
      s.cursor.Unmoved (p.node (p.callRule room) parser s).2.cursor) ∧
    (∀ room id (s : Running), (p.callRule room id s).1 = none →
      s.cursor.Unmoved (p.callRule room id s).2.cursor) ∧
    (∀ id cursor, (p.runRule id cursor).outcome = none →
      cursor.Unmoved (p.runRule id cursor).cursor) ∧
    (∀ room body (s : Running),
      s.cursor.Unmoved (p.node (p.callRule room) (.ahead body) s).2.cursor) ∧
    (∀ room body (s : Running),
      s.cursor.Unmoved (p.node (p.callRule room) (.notAhead body) s).2.cursor) := by
  have hcall := backtracks_callRule hscripts
  refine ⟨?_, ?_, ?_, ?_, ?_⟩
  · intro room parser s hfail
    exact ((backtracks_node hscripts (hcall room) parser s).returned hfail).unmoved
  · intro room id s hfail
    exact ((hcall room id s).returned hfail).unmoved
  · intro id cursor hfail
    exact ((hcall p.depthLimit id (.start cursor)).returned hfail).unmoved
  · intro room body s
    have hbody := (backtracks_node hscripts (hcall room) body s).extended
    rw [node]
    exact hbody.returns_restore.unmoved
  · intro room body s
    have hbody := (backtracks_node hscripts (hcall room) body s).extended
    rw [node]
    exact hbody.returns_restore.unmoved

/-- A program with one rule, whose script moves on, opens a block and then fails. -/
def greedy : Program where
  rules := [⟨"start", .sequence [.indent, .script "greedy_failure" 2]⟩]
  start := 0
  nesting := 2
  literals := .empty 0
  scripts := (Script.stockEngine []).toEngine
  config := { Config.default with maxDepth := 3 }
  fingerprint := ⟨[]⟩

theorem failure_leaves_cursor_greedy :
    greedy.scripts.OnlyMoves ∧ (greedy.runRule 0 (.start "  ab")).outcome = none ∧
      (Cursor.start "  ab").Unmoved (greedy.runRule 0 (.start "  ab")).cursor := by
  have hscripts : greedy.scripts.OnlyMoves := Script.onlyMoves_stockEngine
  have hfail : (greedy.runRule 0 (.start "  ab")).outcome = none := rfl
  exact ⟨hscripts, hfail, (failure_leaves_cursor greedy hscripts).2.2.1 0 (.start "  ab") hfail⟩

end Program

end PegGrammar
