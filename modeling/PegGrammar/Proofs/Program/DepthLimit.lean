import Mathlib
import PegGrammar.Proofs.Compile.Settings
import PegGrammar.Proofs.Program.Progress

/-!
# The limit on nesting

A rule that is nested too deeply fails like any other, so a lookahead or another alternative can hide the
failure. It cannot hide the flag, which nothing takes back. A run that ends without the flag therefore
never met the limit anywhere, and with a larger limit every one of its steps is the same. That is what the
induction over the tree carries along: where the step with the smaller limit ends without the flag, so did
all steps before, and the step with the larger limit gives the same.
-/

namespace PegGrammar

namespace Running

/-- No rule has failed because of the limit. -/
def Unlimited (s : Running) : Prop := s.report.depthLimitReached = false

theorem Unlimited.before {s t : Running} (ht : t.Unlimited) (h : s.report.Le t.report) :
    s.Unlimited :=
  Bool.eq_false_iff.2 fun hs => Bool.eq_false_iff.1 ht (h.depthLimitReached hs)

end Running

namespace Program

/-- Programs that differ at most in what their limits are made of. -/
structure RunsLike (p q : Program) : Prop where
  rules : q.rules = p.rules
  literals : q.literals = p.literals
  scripts : q.scripts = p.scripts
  trace : q.config.trace = p.config.trace
  parseTree : q.config.parseTree = p.config.parseTree

/-- The wide step does what the narrow one does, wherever that one ends without the flag. -/
def Agrees (wide narrow : Step) : Prop := ∀ s, (narrow s).2.Unlimited → wide s = narrow s

/-! ### Trees -/

theorem agrees_repeatFrom {wide narrow : Step} (h : Agrees wide narrow) (hreports : Reports narrow)
    (fuel last : Nat) (found : List Chain) :
    Agrees (repeatFrom wide fuel last found) (repeatFrom narrow fuel last found) := by
  induction fuel generalizing last found with
  | zero => exact fun s _ => rfl
  | succ fuel ih =>
    intro s hend
    rw [repeatFrom] at hend
    rw [repeatFrom, repeatFrom]
    dsimp only at hend ⊢
    by_cases hlast : last < s.position
    · rw [if_pos hlast] at hend
      rw [if_pos hlast, if_pos hlast]
      have hstep := h s
      rcases hnarrow : narrow s with ⟨_ | tokens, next⟩
      · rw [hnarrow] at hend hstep
        rw [hstep hend]
      · rw [hnarrow] at hend hstep
        rw [hstep (hend.before (accrual_report.repeatFrom hreports _ _ _ next))]
        exact ih _ _ next hend
    · rw [if_neg hlast, if_neg hlast]

theorem agrees_repeatStep {wide narrow : Step} (h : Agrees wide narrow) (hreports : Reports narrow) :
    Agrees (repeatStep wide) (repeatStep narrow) := by
  intro s hend
  rw [repeatStep] at hend
  rw [repeatStep, repeatStep]
  have hstep := h s
  rcases hnarrow : narrow s with ⟨_ | tokens, next⟩
  · rw [hnarrow] at hend hstep
    rw [hstep hend]
  · rw [hnarrow] at hend hstep
    rw [hstep (hend.before (accrual_report.repeatFrom hreports _ _ _ next))]
    exact agrees_repeatFrom h hreports _ _ _ next hend

section

variable {p q : Program} {wide narrow : Nat → Step}

mutual

/-- Parsers agree if the rules that they call do. -/
theorem agrees_node (hpq : p.RunsLike q) (hcall : ∀ id, Agrees (wide id) (narrow id))
    (hreports : ∀ id, Reports (narrow id)) :
    (parser : Parser) → Agrees (node q wide parser) (node p narrow parser)
  | .literal text => fun _ _ => rfl
  | .regex pattern => fun _ _ => rfl
  | .eof => fun _ _ => rfl
  | .indent => fun _ _ => rfl
  | .sequence items => fun s hend => by
    rw [node] at hend
    rw [node, node]
    exact agrees_runItems hpq hcall hreports _ items [] s hend
  | .repeated body => by
    rw [node, node]
    exact agrees_repeatStep (agrees_node hpq hcall hreports body) (accrual_report.node hreports body)
  | .choice branches => fun s hend => by
    rw [node] at hend
    rw [node, node]
    exact agrees_runBranches hpq hcall hreports _ branches s hend
  | .ahead body => fun s hend => by
    have hbody := agrees_node hpq hcall hreports body s
    rw [node] at hend
    rw [node, node]
    dsimp only
    rw [hbody hend]
  | .notAhead body => fun s hend => by
    have hbody := agrees_node hpq hcall hreports body s
    rw [node] at hend
    rw [node, node]
    dsimp only
    rw [hbody hend]
  | .optional body => fun s hend => by
    have hbody := agrees_node hpq hcall hreports body s
    rw [node] at hend
    rw [node, node]
    dsimp only at hend ⊢
    rcases hnarrow : node p narrow body s with ⟨_ | tokens, next⟩
    all_goals
      rw [hnarrow] at hend hbody
      rw [hbody hend]
  | .script source handle => fun s _ => by
    rw [node, node, scriptStep, scriptStep, hpq.scripts]
  | .rule id => hcall id

theorem agrees_runItems (hpq : p.RunsLike q) (hcall : ∀ id, Agrees (wide id) (narrow id))
    (hreports : ∀ id, Reports (narrow id)) (origin : Checkpoint) :
    (items : List Parser) → (found : List Chain) →
      Agrees (runItems q wide origin found items) (runItems p narrow origin found items)
  | [], _ => fun s _ => by
    rw [runItems, runItems]
  | item :: items, found => fun s hend => by
    have hitem := agrees_node hpq hcall hreports item s
    rw [runItems] at hend
    rw [runItems, runItems]
    dsimp only at hend ⊢
    rcases hnarrow : node p narrow item s with ⟨_ | tokens, next⟩
    · rw [hnarrow] at hend hitem
      rw [hitem hend]
    · rw [hnarrow] at hend hitem
      rw [hitem (hend.before (accrual_report.runItems hreports origin items _ next))]
      exact agrees_runItems hpq hcall hreports origin items _ next hend

theorem agrees_runBranches (hpq : p.RunsLike q) (hcall : ∀ id, Agrees (wide id) (narrow id))
    (hreports : ∀ id, Reports (narrow id)) (origin : Checkpoint) :
    (branches : List (Option BitSet × Parser)) →
      Agrees (runBranches q wide origin branches) (runBranches p narrow origin branches)
  | [] => fun s _ => by
    rw [runBranches, runBranches]
  | (first, branch) :: branches => fun s hend => by
    have hworth : q.worthTrying first s = p.worthTrying first s := by
      simp only [worthTrying, mayStart, literalsStarting, hpq.literals]
    rw [runBranches] at hend
    rw [runBranches, runBranches]
    dsimp only at hend ⊢
    rw [hworth]
    rcases htry : p.worthTrying first s with ⟨_ | _, tried⟩
    · rw [htry] at hend
      exact agrees_runBranches hpq hcall hreports origin branches tried hend
    · rw [htry] at hend
      have hbranch := agrees_node hpq hcall hreports branch tried
      dsimp only at hend ⊢
      rcases hnarrow : node p narrow branch tried with ⟨_ | tokens, next⟩
      · rw [hnarrow] at hend hbranch
        have hnext : next.Unlimited :=
          hend.before (accrual_report.runBranches hreports origin branches (next.restore origin))
        rw [hbranch hnext]
        exact agrees_runBranches hpq hcall hreports origin branches _ hend
      · rw [hnarrow] at hend hbranch
        rw [hbranch hend]

end

end

/-! ### Rules -/

/-- Rules agree when the wide limit leaves as much more room as it is larger. Their depths are then the
same. -/
theorem agrees_callRule {p q : Program} (hpq : p.RunsLike q) (hle : p.depthLimit ≤ q.depthLimit)
    (room : Nat) (hroom : room ≤ p.depthLimit) (id : Nat) :
    Agrees (q.callRule (room + (q.depthLimit - p.depthLimit)) id) (p.callRule room id) := by
  induction room generalizing id with
  | zero =>
    intro s hend
    rw [callRule] at hend
    rw [callRule]
    dsimp only at hend ⊢
    cases hrule : p.rules[id]? with
    | none =>
      rcases 0 + (q.depthLimit - p.depthLimit) with _ | more
      all_goals
        rw [callRule, hpq.rules]
        dsimp only
        rw [hrule]
    | some rule =>
      rw [hrule] at hend
      cases hend
  | succ room ih =>
    intro s hend
    have hbodies := agrees_node hpq (fun id => ih (Nat.le_of_succ_le hroom) id)
      (p.reports_callRule room)
    have hmore : room + 1 + (q.depthLimit - p.depthLimit) =
        room + (q.depthLimit - p.depthLimit) + 1 := Nat.add_right_comm _ _ _
    have hdepth : q.depthLimit - (room + (q.depthLimit - p.depthLimit) + 1) =
        p.depthLimit - (room + 1) := by omega
    have htraced : q.traced = p.traced := by
      funext depth message s
      rw [traced, traced, hpq.trace]
    have hwrap : q.wrap = p.wrap := by
      funext rule start tokens c
      rw [wrap, wrap, hasOwnToken, hasOwnToken, hpq.parseTree]
    rw [callRule] at hend
    rw [hmore, callRule, callRule, hpq.rules, hdepth, htraced, hwrap]
    dsimp only at hend ⊢
    cases hrule : p.rules[id]? with
    | none => rfl
    | some rule =>
      rw [hrule] at hend
      dsimp only at hend ⊢
      rw [Running.Unlimited, report_traced] at hend
      rw [hbodies rule.body _ hend]

/-- Where a run ends without the flag, a larger limit makes no difference to it. -/
theorem runRule_eq_of_unlimited {p q : Program} (hpq : p.RunsLike q)
    (hle : p.depthLimit ≤ q.depthLimit) {id : Nat} {cursor : Cursor}
    (hflag : (p.runRule id cursor).report.depthLimitReached = false) :
    q.runRule id cursor = p.runRule id cursor := by
  have hrule := agrees_callRule hpq hle p.depthLimit (Nat.le_refl _) id (.start cursor) hflag
  rw [Nat.add_sub_cancel' hle] at hrule
  rw [runRule, runRule, hrule]

end Program

/-- The compiler with another limit on nesting. -/
def Compiler.withMaxDepth (c : Compiler) (n : Nat) : Compiler :=
  { c with config := { c.config with maxDepth := n } }

theorem Compiler.compilesLike_withMaxDepth (c : Compiler) (m n : Nat) :
    (c.withMaxDepth m).CompilesLike (c.withMaxDepth n) :=
  ⟨rfl, rfl, rfl, rfl, rfl⟩

/-- The limit on nesting is invisible unless it is reported. A grammar that compiles with one limit
compiles with any other; and if that is at least as large in effect, then a run that ends without the flag
has the same outcome, cursor, report and log with it. As always, scripts are functions of the cursor. -/
theorem Program.larger_limit_invisible {c : Compiler} {start : String} {m : Nat} {p : Program}
    (hp : ((c.withMaxDepth m).compile start).1 = .ok p) (n : Nat) :
    ∃ q, ((c.withMaxDepth n).compile start).1 = .ok q ∧ (p.depthLimit ≤ q.depthLimit →
      ∀ id cursor, (p.runRule id cursor).report.depthLimitReached = false →
        q.runRule id cursor = p.runRule id cursor) := by
  have hlike := c.compilesLike_withMaxDepth m n
  have hconfig := (Compiler.settings_of_compile hp).2
  have hq := Compiler.compile_congr hlike start
  rw [hp] at hq
  refine ⟨_, hq, fun hle id cursor hflag => runRule_eq_of_unlimited ?_ hle hflag⟩
  constructor
  case trace =>
    rw [hconfig]
    rfl
  case parseTree =>
    rw [hconfig]
    rfl
  all_goals rfl

/-- A grammar whose only rule is nested as deeply as the text has letters. -/
def Compiler.nested : Compiler where
  grammar :=
    let letter : String → Rule := fun text => .combinator "$literal" (.text text)
    [("word", .combinator "$or" (.list [.list [letter "x", .text "word"], letter "y"]))]
  fingerprint := ⟨[]⟩
  scripts := .none
  config := { Config.default with pruneAlternatives := false }
  overrides := []

/-- The program of `Compiler.nested`. -/
def Program.nested (n : Nat) : Program where
  rules := [⟨"word", .choice [(none, .sequence [.literal "x", .rule 0]), (none, .literal "y")]⟩]
  start := 0
  nesting := 3
  literals := .empty 0
  scripts := .none
  config := (Compiler.nested.withMaxDepth n).config
  fingerprint := ⟨[]⟩

theorem Program.larger_limit_invisible_nested :
    ((Compiler.nested.withMaxDepth 3).compile "word").1 = .ok (Program.nested 3) ∧
    ((nested 3).runRule 0 (.start "xxy")).report.depthLimitReached = false ∧
    (nested 5).runRule 0 (.start "xxy") = (nested 3).runRule 0 (.start "xxy") := by
  have hcompiled : ((Compiler.nested.withMaxDepth 3).compile "word").1 = .ok (nested 3) := by cbv
  have hflag : ((nested 3).runRule 0 (.start "xxy")).report.depthLimitReached = false := by
    decide +kernel
  obtain ⟨q, hq, hrun⟩ := larger_limit_invisible hcompiled 5
  have hlarger : ((Compiler.nested.withMaxDepth 5).compile "word").1 = .ok (nested 5) := by cbv
  rw [hlarger] at hq
  cases hq
  exact ⟨hcompiled, hflag, hrun (by decide +kernel) 0 (.start "xxy") hflag⟩

end PegGrammar
