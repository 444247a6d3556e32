import Mathlib.Computability.StateTransition
import PegGrammar.Program.Moment
import PegGrammar.Proofs.Parser.Parts
import PegGrammar.Proofs.Program.Restoration

/-!
# Every run comes to an end

Runs are defined by recursion, which cannot but end. That this is no more than a way to write them down is shown
here: moment by moment, without any bound on what is still to come, a run gets to the outcome that the recursion
gives, and stops there.

What makes the recursion go through is what makes a run stop. Parsers inside of a body get smaller. Rules inside of
rules get fewer, as only so many may be nested. An iteration of a repetition begins further on than the one before
it, and none begins behind the end of the text; where a body went in between does not matter, be it back or by a
script.
-/

namespace PegGrammar

theorem Cursor.Extends.length_eq {c d : Cursor} (h : c.Extends d) : d.length = c.length := by
  have hd := Place.byteLength_source d.place
  rw [h.source, Place.byteLength_source] at hd
  exact hd.symm

theorem Cursor.position_le_length (c : Cursor) : c.position ≤ c.length := Nat.le_add_right _ _

namespace Program

open StateTransition

variable {p : Program} {depth : Nat}

/-- At a depth of rules, doing something comes to the outcome of a step, whatever waits for it. -/
def Answers (p : Program) (depth : Nat) (focus : Focus) (step : Step) : Prop :=
  ∀ waiting s, Waiting.depth waiting = depth →
    Reaches p.next? ⟨focus, waiting, s⟩ ⟨.back (step s).1, waiting, (step s).2⟩

theorem reaches_of_next {m m' last : Moment} (hnext : p.next? m = some m') (h : Reaches p.next? m' last) :
    Reaches p.next? m last :=
  Relation.ReflTransGen.head hnext h

/-- Which moment comes after another. -/
inductive Next (p : Program) : Moment → Moment → Prop
  | enter (parser : Parser) (waiting : List Waiting) (s : Running) :
      Next p ⟨.run parser, waiting, s⟩ (p.enter waiting s parser)
  | exhausted (origin : Checkpoint) (waiting : List Waiting) (s : Running) :
      Next p ⟨.choose origin [], waiting, s⟩ ⟨.back none, waiting, s⟩
  | tried {origin : Checkpoint} {first : Option BitSet} {branch : Parser}
      {rest : List (Option BitSet × Parser)} {waiting : List Waiting} {s tried : Running} :
      p.worthTrying first s = (true, tried) → Next p ⟨.choose origin ((first, branch) :: rest), waiting, s⟩
        ⟨.run branch, .branches origin rest :: waiting, tried⟩
  | skipped {origin : Checkpoint} {first : Option BitSet} {branch : Parser}
      {rest : List (Option BitSet × Parser)} {waiting : List Waiting} {s tried : Running} :
      p.worthTrying first s = (false, tried) → Next p ⟨.choose origin ((first, branch) :: rest), waiting, s⟩
        ⟨.choose origin rest, waiting, tried⟩
  | called {id : Nat} {rule : CompiledRule} {waiting : List Waiting} {s : Running} :
      p.rules[id]? = some rule → Next p ⟨.call id, waiting, s⟩ (p.enterRule rule waiting s)
  | left (outcome : Option Chain) (w : Waiting) (waiting : List Waiting) (s : Running) :
      Next p ⟨.back outcome, w :: waiting, s⟩ (p.leave outcome waiting s w)

theorem next?_eq_some_iff {m m' : Moment} : p.next? m = some m' ↔ Next p m m' := by
  constructor
  · intro h
    obtain ⟨focus, waiting, s⟩ := m
    cases focus with
    | run parser =>
      cases h
      exact .enter parser waiting s
    | choose origin branches =>
      cases branches with
      | nil =>
        cases h
        exact .exhausted origin waiting s
      | cons branch rest =>
        rw [next?] at h
        dsimp only at h
        split at h
        · rename_i htry
          cases h
          exact .tried htry
        · rename_i htry
          cases h
          exact .skipped htry
    | call id =>
      obtain ⟨rule, hrule, rfl⟩ := Option.map_eq_some_iff.1 h
      exact .called hrule
    | back outcome =>
      cases waiting with
      | nil => cases h
      | cons w waiting =>
        cases h
        exact .left outcome w waiting s
  · intro h
    cases h with
    | enter | exhausted | left => rfl
    | tried htry => simp only [next?, htry]
    | skipped htry => simp only [next?, htry]
    | called hrule => simp only [next?, hrule, Option.map_some]

theorem answers_of_enter {parser : Parser} {step : Step}
    (h : ∀ waiting s, p.enter waiting s parser = .ofStep step waiting s) :
    Answers p depth (.run parser) step := by
  intro waiting s _
  refine reaches_of_next (congrArg some (h waiting s)) ?_
  exact .refl

/-! ### Repetitions -/

/-- Once an iteration has matched, the repetition goes on as its recursion does. The fuel is never used up, because
it is more than there is left of the text behind the place where the last iteration began. -/
theorem reaches_repeatFrom {body : Parser} {step : Step} (hstep : Backtracks step)
    (hbody : Answers p depth (.run body) step) {length start : Nat} {waiting : List Waiting}
    (hdepth : Waiting.depth waiting = depth) (fuel last : Nat) (tokens : Chain) (found : List Chain)
    (s : Running) (hlength : s.cursor.length = length) (hlast : last ≤ length) (hfuel : length < last + fuel) :
    Reaches p.next? ⟨.back (some tokens), .repeated body start last found :: waiting, s⟩
      ⟨.back (repeatFrom step fuel last (tokens :: found) s).1, waiting,
        (repeatFrom step fuel last (tokens :: found) s).2⟩ := by
  induction fuel generalizing last tokens found s with
  | zero => omega
  | succ fuel ih =>
    have hposition := s.cursor.position_le_length
    rw [repeatFrom]
    dsimp only
    by_cases hfurther : last < s.position
    · rw [if_pos hfurther]
      have hnext : p.next? ⟨.back (some tokens), .repeated body start last found :: waiting, s⟩ =
          some ⟨.run body, .repeated body start s.position (tokens :: found) :: waiting, s⟩ :=
        congrArg some (if_pos hfurther)
      refine reaches_of_next hnext ((hbody (.repeated body start s.position (tokens :: found) :: waiting) s
        hdepth).trans ?_)
      have hextends := (hstep s).extended.length_eq
      rcases hresult : step s with ⟨_ | more, next⟩
      · exact reaches_of_next rfl .refl
      · rw [hresult] at hextends
        refine ih s.position more (tokens :: found) next (hextends.trans hlength) ?_ ?_
        · exact hlength ▸ hposition
        · omega
    · rw [if_neg hfurther]
      have hnext : p.next? ⟨.back (some tokens), .repeated body start last found :: waiting, s⟩ =
          some ⟨.back (some (tokens :: found).reverse.flatten), waiting, s⟩ :=
        congrArg some (if_neg hfurther)
      exact reaches_of_next hnext .refl

theorem answers_repeatStep {body : Parser} {step : Step} (hstep : Backtracks step)
    (hbody : Answers p depth (.run body) step) : Answers p depth (.run (.repeated body)) (repeatStep step) := by
  intro waiting s hdepth
  refine reaches_of_next rfl ((hbody (.repeated body s.position s.position [] :: waiting) s hdepth).trans ?_)
  have hextends := (hstep s).extended.length_eq
  have hposition := s.cursor.position_le_length
  rw [repeatStep]
  rcases hresult : step s with ⟨_ | tokens, next⟩
  · exact reaches_of_next rfl .refl
  · rw [hresult] at hextends
    refine reaches_repeatFrom hstep hbody hdepth _ _ tokens [] next hextends hposition ?_
    change s.cursor.length < s.cursor.position + (s.cursor.length - s.cursor.position + 1)
    omega

/-! ### Trees -/

section

variable {call : Nat → Step}

mutual

/-- A parser comes to its outcome, if the rules that it calls do. -/
theorem answers_node (hscripts : p.scripts.OnlyMoves) (hback : ∀ id, Backtracks (call id))
    (hcall : ∀ id, id < p.rules.length → Answers p depth (.call id) (call id)) : (parser : Parser) →
      (∀ id, (Parser.rule id).Within parser → id < p.rules.length) →
        Answers p depth (.run parser) (node p call parser)
  | .literal text, _ => answers_of_enter fun _ _ => by rw [node]; rfl
  | .regex pattern, _ => answers_of_enter fun _ _ => by rw [node]; rfl
  | .eof, _ => answers_of_enter fun _ _ => by rw [node]; rfl
  | .indent, _ => answers_of_enter fun _ _ => by rw [node]; rfl
  | .script source handle, _ => answers_of_enter fun _ _ => by rw [node]; rfl
  | .sequence items, hids => fun waiting s hdepth => by
    rw [node]
    exact reaches_of_next rfl (reaches_runItems hscripts hback hcall items
      (fun item hitem id hid => hids id (.part hitem hid)) _ [] waiting s hdepth)
  | .choice branches, hids => fun waiting s hdepth => by
    rw [node]
    exact reaches_of_next rfl (reaches_runBranches hscripts hback hcall branches
      (fun branch hbranch id hid => hids id (.part (List.mem_map_of_mem hbranch) hid)) _ waiting s hdepth)
  | .repeated body, hids => by
    rw [node]
    exact answers_repeatStep (backtracks_node hscripts hback body)
      (answers_node hscripts hback hcall body fun id hid => hids id (.part List.mem_cons_self hid))
  | .ahead body, hids => fun waiting s hdepth => by
    have hbody := answers_node hscripts hback hcall body fun id hid => hids id (.part List.mem_cons_self hid)
    rw [node]
    exact reaches_of_next rfl ((hbody (.ahead s.cursor.checkpoint :: waiting) s hdepth).trans
      (reaches_of_next rfl .refl))
  | .notAhead body, hids => fun waiting s hdepth => by
    have hbody := answers_node hscripts hback hcall body fun id hid => hids id (.part List.mem_cons_self hid)
    rw [node]
    exact reaches_of_next rfl ((hbody (.notAhead s.cursor.checkpoint :: waiting) s hdepth).trans
      (reaches_of_next rfl .refl))
  | .optional body, hids => fun waiting s hdepth => by
    have hbody := answers_node hscripts hback hcall body fun id hid => hids id (.part List.mem_cons_self hid)
    rw [node]
    refine reaches_of_next rfl ((hbody (.optional s.cursor.checkpoint :: waiting) s hdepth).trans ?_)
    dsimp only
    rcases node p call body s with ⟨_ | tokens, next⟩
    · exact reaches_of_next rfl .refl
    · exact reaches_of_next rfl .refl
  | .rule id, hids => fun waiting s hdepth => by
    rw [node]
    exact reaches_of_next rfl ((hcall id (hids id .root) (.reference :: waiting) s hdepth).trans
      (reaches_of_next rfl .refl))

theorem reaches_runItems (hscripts : p.scripts.OnlyMoves) (hback : ∀ id, Backtracks (call id))
    (hcall : ∀ id, id < p.rules.length → Answers p depth (.call id) (call id)) : (items : List Parser) →
      (∀ item ∈ items, ∀ id, (Parser.rule id).Within item → id < p.rules.length) →
      ∀ origin found waiting s, Waiting.depth waiting = depth →
        Reaches p.next? (.goOn origin found waiting s items)
          ⟨.back (runItems p call origin found items s).1, waiting, (runItems p call origin found items s).2⟩
  | [], _, origin, found, waiting, s, _ => by
    rw [runItems]
    exact .refl
  | item :: items, hids, origin, found, waiting, s, hdepth => by
    have hitem := answers_node hscripts hback hcall item (hids item List.mem_cons_self)
    rw [runItems]
    refine (hitem (.items origin found items :: waiting) s hdepth).trans ?_
    dsimp only
    rcases node p call item s with ⟨_ | tokens, next⟩
    · exact reaches_of_next rfl .refl
    · exact reaches_of_next rfl (reaches_runItems hscripts hback hcall items
        (fun item hitem => hids item (List.mem_cons_of_mem _ hitem)) origin (tokens :: found) waiting next hdepth)

theorem reaches_runBranches (hscripts : p.scripts.OnlyMoves) (hback : ∀ id, Backtracks (call id))
    (hcall : ∀ id, id < p.rules.length → Answers p depth (.call id) (call id)) :
    (branches : List (Option BitSet × Parser)) →
      (∀ branch ∈ branches, ∀ id, (Parser.rule id).Within branch.2 → id < p.rules.length) →
      ∀ origin waiting s, Waiting.depth waiting = depth →
        Reaches p.next? ⟨.choose origin branches, waiting, s⟩
          ⟨.back (runBranches p call origin branches s).1, waiting, (runBranches p call origin branches s).2⟩
  | [], _, origin, waiting, s, _ => by
    rw [runBranches]
    exact reaches_of_next rfl .refl
  | (first, branch) :: branches, hids, origin, waiting, s, hdepth => by
    have hbranch := answers_node hscripts hback hcall branch (hids (first, branch) List.mem_cons_self)
    have hrest := reaches_runBranches hscripts hback hcall branches
      (fun branch hbranch => hids branch (List.mem_cons_of_mem _ hbranch)) origin waiting
    rw [runBranches]
    dsimp only
    rcases htest : p.worthTrying first s with ⟨_ | _, tried⟩
    · exact reaches_of_next (next?_eq_some_iff.2 (.skipped htest)) (hrest tried hdepth)
    · refine reaches_of_next (next?_eq_some_iff.2 (.tried htest))
        ((hbranch (.branches origin branches :: waiting) tried hdepth).trans ?_)
      dsimp only
      rcases node p call branch tried with ⟨_ | tokens, next⟩
      · exact reaches_of_next rfl (hrest (next.restore origin) hdepth)
      · exact reaches_of_next rfl .refl

end

end

/-! ### Rules -/

/-- A rule comes to its outcome, however deeply it is nested. -/
theorem answers_callRule (hscripts : p.scripts.OnlyMoves)
    (hids : ∀ rule ∈ p.rules, ∀ id, (Parser.rule id).Within rule.body → id < p.rules.length) (room : Nat)
    (hroom : depth + room = p.depthLimit) (id : Nat) (hid : id < p.rules.length) :
    Answers p depth (.call id) (p.callRule room id) := by
  induction room generalizing depth id with
  | zero =>
    intro waiting s hdepth
    have hrule := List.getElem?_eq_getElem hid
    have hdeep : p.depthLimit ≤ Waiting.depth waiting := by omega
    refine reaches_of_next (next?_eq_some_iff.2 (.called hrule)) ?_
    rw [callRule, hrule, enterRule, if_pos hdeep]
    exact .refl
  | succ room ih =>
    intro waiting s hdepth
    have hrule := List.getElem?_eq_getElem hid
    have hshallow : ¬ p.depthLimit ≤ Waiting.depth waiting := by omega
    have hnested : Waiting.depth waiting = p.depthLimit - (room + 1) := by omega
    have hinner : Waiting.depth (.rule p.rules[id] s.position :: waiting) = depth + 1 := by
      rw [← hdepth]
      exact List.countP_cons_of_pos rfl
    have hinside : depth + 1 + room = p.depthLimit := by omega
    have hbody := answers_node hscripts (backtracks_callRule hscripts room) (ih hinside) p.rules[id].body
      (hids p.rules[id] (List.getElem_mem hid))
    refine reaches_of_next (next?_eq_some_iff.2 (.called hrule)) ?_
    rw [callRule, hrule, enterRule, if_neg hshallow, hnested]
    refine (hbody _ _ hinner).trans (reaches_of_next ?_ .refl)
    rw [← hnested]
    rfl

/-! ### What holds at every moment -/

/-- The iterations of a repetition began further on each time, and none behind the end of the text. -/
def Advancing (length : Nat) : Waiting → Prop
  | .repeated _ start last found => start + found.length ≤ last ∧ last ≤ length
  | _ => True

section

variable {waiting : List Waiting} {s : Running}

theorem extends_enter (hscripts : p.scripts.OnlyMoves) (parser : Parser) :
    s.cursor.Extends (p.enter waiting s parser).state.cursor := by
  cases parser with
  | literal text => exact (backtracks_literalStep text s).extended
  | regex pattern => exact (backtracks_regexStep pattern s).extended
  | eof => exact (backtracks_eofStep s).extended
  | indent => exact (backtracks_indentation s).extended
  | script source handle => exact (backtracks_scriptStep hscripts source handle s).extended
  | sequence items => cases items <;> exact .refl _
  | choice | repeated | ahead | notAhead | optional | rule => exact .refl _

theorem extends_leave (outcome : Option Chain) (w : Waiting) :
    s.cursor.Extends (p.leave outcome waiting s w).state.cursor := by
  cases w with
  | items origin found rest =>
    cases outcome with
    | none => exact Cursor.extends_restore _ _
    | some tokens => cases rest <;> exact .refl _
  | branches origin rest =>
    cases outcome with
    | none => exact Cursor.extends_restore _ _
    | some tokens => exact .refl _
  | repeated body start last found =>
    cases outcome with
    | none => exact .refl _
    | some tokens =>
      rw [leave]
      split <;> exact .refl _
  | ahead | notAhead => exact Cursor.extends_restore _ _
  | optional origin =>
    cases outcome with
    | none => exact Cursor.extends_restore _ _
    | some tokens => exact .refl _
  | reference => exact .refl _
  | rule rule start =>
    rw [leave, cursor_traced]
    exact .refl _

theorem extends_enterRule (rule : CompiledRule) :
    s.cursor.Extends (p.enterRule rule waiting s).state.cursor := by
  rw [enterRule]
  split
  · rw [cursor_tooDeep]
    exact .refl _
  · rw [cursor_traced]
    exact .refl _

theorem extends_of_next (hscripts : p.scripts.OnlyMoves) {m m' : Moment} (h : p.next? m = some m') :
    m.state.cursor.Extends m'.state.cursor := by
  cases next?_eq_some_iff.1 h with
  | enter parser => exact extends_enter hscripts parser
  | exhausted => exact .refl _
  | @tried _ first _ _ _ s _ htry | @skipped _ first _ _ _ s _ htry =>
    have hcursor := cursor_worthTrying p first s
    rw [htry] at hcursor
    exact hcursor ▸ .refl _
  | called => exact extends_enterRule _
  | left outcome w => exact extends_leave outcome w

variable (hwaiting : ∀ w ∈ waiting, Advancing s.cursor.length w)

include hwaiting

theorem advancing_enter (parser : Parser) :
    ∀ w ∈ (p.enter waiting s parser).waiting, Advancing s.cursor.length w := by
  cases parser with
  | literal | regex | eof | indent | script | choice => exact hwaiting
  | sequence items =>
    cases items with
    | nil => exact hwaiting
    | cons item items => exact List.forall_mem_cons.2 ⟨trivial, hwaiting⟩
  | repeated body =>
    exact List.forall_mem_cons.2 ⟨⟨Nat.le_refl _, s.cursor.position_le_length⟩, hwaiting⟩
  | ahead | notAhead | optional | rule => exact List.forall_mem_cons.2 ⟨trivial, hwaiting⟩

theorem advancing_leave (outcome : Option Chain) {w : Waiting} (hw : Advancing s.cursor.length w) :
    ∀ w' ∈ (p.leave outcome waiting s w).waiting, Advancing s.cursor.length w' := by
  cases w with
  | items origin found rest =>
    cases outcome with
    | none => exact hwaiting
    | some tokens =>
      cases rest with
      | nil => exact hwaiting
      | cons item rest => exact List.forall_mem_cons.2 ⟨trivial, hwaiting⟩
  | repeated body start last found =>
    cases outcome with
    | none => exact hwaiting
    | some tokens =>
      obtain ⟨hcount, -⟩ := hw
      rw [leave]
      split
      · rename_i hfurther
        refine List.forall_mem_cons.2 ⟨⟨?_, s.cursor.position_le_length⟩, hwaiting⟩
        rw [List.length_cons]
        omega
      · exact hwaiting
  | branches | optional => cases outcome <;> exact hwaiting
  | ahead | notAhead | reference | rule => exact hwaiting

theorem advancing_enterRule (rule : CompiledRule) :
    ∀ w ∈ (p.enterRule rule waiting s).waiting, Advancing s.cursor.length w := by
  rw [enterRule]
  split
  · exact hwaiting
  · exact List.forall_mem_cons.2 ⟨trivial, hwaiting⟩

end

theorem advancing_of_next {m m' : Moment} (h : p.next? m = some m')
    (hm : ∀ w ∈ m.waiting, Advancing m.state.cursor.length w) :
    ∀ w ∈ m'.waiting, Advancing m.state.cursor.length w := by
  cases next?_eq_some_iff.1 h with
  | enter parser => exact advancing_enter hm parser
  | exhausted | skipped => exact hm
  | tried => exact List.forall_mem_cons.2 ⟨trivial, hm⟩
  | called => exact advancing_enterRule hm _
  | left outcome w =>
    obtain ⟨hw, hwaiting⟩ := List.forall_mem_cons.1 hm
    exact advancing_leave hwaiting outcome hw

/-- At every moment of a run the text is as long as it was, and all repetitions that wait are advancing. -/
theorem advancing_of_reaches (hscripts : p.scripts.OnlyMoves) {m last : Moment} (h : Reaches p.next? m last)
    (hm : ∀ w ∈ m.waiting, Advancing m.state.cursor.length w) :
    last.state.cursor.length = m.state.cursor.length ∧
      ∀ w ∈ last.waiting, Advancing m.state.cursor.length w := by
  induction h with
  | refl => exact ⟨rfl, hm⟩
  | tail _ hnext ih =>
    obtain ⟨hlength, hadvancing⟩ := ih
    rw [← hlength] at hadvancing ⊢
    exact ⟨(extends_of_next hscripts hnext).length_eq, advancing_of_next hnext hadvancing⟩

/-- A run of any rule of a program, from any cursor, stops after finitely many moments, at the outcome that its
recursion gives. At every moment of it, a repetition has run its body at most as often as there are bytes behind
the place where it was entered, and once more. Scripts are functions, so they come to an end themselves. -/
theorem run_terminates (p : Program) (hscripts : p.scripts.OnlyMoves)
    (hids : ∀ rule ∈ p.rules, ∀ id, (Parser.rule id).Within rule.body → id < p.rules.length) {id : Nat}
    (hid : id < p.rules.length) (cursor : Cursor) :
    (∃ s, ⟨.back (p.runRule id cursor).outcome, [], s⟩ ∈ eval p.next? (.start id cursor) ∧
      p.runRule id cursor = ⟨(p.runRule id cursor).outcome, s.cursor, s.report, s.log.reverse⟩) ∧
    ∀ m, Reaches p.next? (.start id cursor) m → ∀ body start last found,
      .repeated body start last found ∈ m.waiting →
        (Waiting.repeated body start last found).iterations ≤ (cursor.length - start) + 1 := by
  constructor
  · have hroom : 0 + p.depthLimit = p.depthLimit := Nat.zero_add _
    have hreaches := answers_callRule hscripts hids p.depthLimit hroom id hid [] (.start cursor) rfl
    exact ⟨_, mem_eval.2 ⟨hreaches, rfl⟩, rfl⟩
  · intro m hm body start last found hwaiting
    obtain ⟨-, hadvancing⟩ := advancing_of_reaches hscripts hm (fun w hw => by cases hw)
    obtain ⟨hcount, hlast⟩ := hadvancing _ hwaiting
    change found.length + 1 ≤ _
    change last ≤ cursor.length at hlast
    omega

/-- Two rules that begin with each other, in a repetition whose body ends with a script that goes back to where the
text starts, and a repetition of something that can be empty. -/
def restless : Program where
  rules := [
    ⟨"start", .sequence [.repeated (.sequence [.rule 1, .script "rewind" 5]), .repeated (.optional (.rule 2))]⟩,
    ⟨"left", .choice [(none, .sequence [.rule 2, .literal "b"]), (none, .literal "a")]⟩,
    ⟨"right", .choice [(none, .sequence [.rule 1, .literal "a"]), (none, .literal "a")]⟩]
  start := 0
  nesting := 4
  literals := .empty 0
  scripts := (Script.stockEngine []).toEngine
  config := { Config.default with maxDepth := 4 }
  fingerprint := ⟨[]⟩

theorem run_terminates_restless :
    restless.scripts.OnlyMoves ∧
      (∀ rule ∈ restless.rules, ∀ id, (Parser.rule id).Within rule.body → id < restless.rules.length) ∧
      (restless.runRule 0 (.start "aab")).report = ⟨3, true⟩ ∧
      (∃ s, ⟨.back (restless.runRule 0 (.start "aab")).outcome, [], s⟩ ∈
          eval restless.next? (.start 0 (.start "aab")) ∧
        restless.runRule 0 (.start "aab") =
          ⟨(restless.runRule 0 (.start "aab")).outcome, s.cursor, s.report, s.log.reverse⟩) ∧
      ∀ m, Reaches restless.next? (.start 0 (.start "aab")) m → ∀ body start last found,
        .repeated body start last found ∈ m.waiting →
          (Waiting.repeated body start last found).iterations ≤ ((Cursor.start "aab").length - start) + 1 := by
  have hscripts : restless.scripts.OnlyMoves := Script.onlyMoves_stockEngine
  have hids : ∀ rule ∈ restless.rules, ∀ id, (Parser.rule id).Within rule.body →
      id < restless.rules.length := by
    intro rule hrule id hid
    have hnode := hid.mem_nodes
    simp only [restless, List.mem_cons, List.not_mem_nil, or_false] at hrule
    rcases hrule with rfl | rfl | rfl
    all_goals
      simp [Parser.nodes, Parser.nodesOfItems, Parser.nodesOfBranches] at hnode
      simp only [restless, List.length_cons, List.length_nil]
      omega
  exact ⟨hscripts, hids, by decide +kernel, run_terminates restless hscripts hids (by decide) (.start "aab")⟩

end Program

end PegGrammar
