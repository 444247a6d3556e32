import Mathlib
import PegGrammar.Proofs.Program.Hushed
import PegGrammar.Proofs.Program.Pruning
import PegGrammar.Proofs.Program.Scriptless

/-!
# What pruning does to reports

The report of a run says how far it got. A run that skips an alternative is not told how far the alternative
would have looked before it failed. As long as nothing in the alternative looks further than to the place where
it is skipped, the two runs still get equally far, and this is so unless the alternative comes to a `$not` before
it has matched any text: such a lookahead may well match there, and look beyond all that is tried otherwise. The
flag is another matter. What is skipped may be nested too deeply where nothing that is run is, so the flag is only
known to be the same if it is missing without pruning.
-/

namespace PegGrammar

/-- A run with pruning, and one without that is at the same point and got equally far: at least to where it is. -/
structure Running.Levels (p : Program) (s t : Running) : Prop extends s.Mirrors p t where
  furthest : s.report.furthest = t.report.furthest
  reached : t.position ≤ t.report.furthest

/-- Every alternative that may be skipped has matched text before it comes to a `$not` of something that starts
with text. -/
def Compiler.Discreet (c : Compiler) : Prop :=
  ∀ r, c.HasAlternative r →
    (∀ depth lead, Lead.Starts c.leadContext depth r lead → ∃ text, lead = .literal text) →
      ¬ Lead.Peeks c.leadContext r

theorem Lead.Peeks.exists_notAhead {c : Compiler} {r : Rule} (h : Lead.Peeks c.leadContext r)
    (hcontains : c.Contains r) : ∃ node part, c.Contains node ∧ node.shape = .notAhead part := by
  induction h with
  | text hshape => exact ⟨_, _, hcontains, hshape⟩
  | negated hshape => exact ⟨_, _, hcontains, hshape⟩
  | alternative hpart _ ih => exact ih (hcontains.part (Lead.alternatives_subset _ hpart))
  | item hshape _ _ ih => exact ih (hcontains.part (hshape ▸ List.mem_append_right _ List.mem_cons_self))
  | named _ hlookup _ ih => exact ih (.definition hlookup)

theorem Compiler.discreet_of_shapes {c : Compiler}
    (h : ∀ r part, c.Contains r → r.shape ≠ .notAhead part) : c.Discreet := by
  intro r halternative _ hpeeks
  obtain ⟨node, part, hcontains, hshape⟩ := hpeeks.exists_notAhead halternative.contains
  exact h node part hcontains hshape

namespace Program

variable {p : Program}

/-! ### Equally far -/

theorem levels_of_touches {step other : Step} (h : Simulates (Running.Mirrors p) step other)
    (hstep : Touches step) (hother : Touches other) : Simulates (Running.Levels p) step other := by
  intro s t hst
  have hreached : s.position ≤ s.report.furthest := by
    rw [hst.position, hst.furthest]
    exact hst.reached
  have hs := hstep s hreached
  have ht := hother t hst.reached
  obtain ⟨houtcome, hafter⟩ := h s t hst.toMirrors
  refine ⟨houtcome, hafter, ?_, ?_⟩
  · rw [hs, ht, hst.furthest, hafter.position]
  · rw [ht]
    exact Nat.le_max_right _ _

theorem levels_traced {s t : Running} (depth : Nat) (message : String) (h : s.Levels p t) :
    (p.traced depth message s).Levels p (p.bare.traced depth message t) := by
  refine ⟨mirrors_traced h.toMirrors depth message, ?_, ?_⟩
  · rw [report_traced, report_traced, h.furthest]
  · rw [Running.position, cursor_traced, report_traced]
    exact h.reached

theorem levels_tooDeep {s t : Running} (rule : CompiledRule) (h : s.Levels p t) :
    (p.tooDeep rule s).Levels p (p.bare.tooDeep rule.bare t) := by
  refine ⟨mirrors_tooDeep h.toMirrors rule, ?_, ?_⟩
  · rw [furthest_tooDeep, furthest_tooDeep, h.furthest]
  · rw [Running.position, cursor_tooDeep, furthest_tooDeep]
    exact h.reached

theorem parallels_levels (hmoves : p.scripts.OnlyMoves) (hsees : p.scripts.SeesAlike) :
    p.Parallels (Running.Levels p) where
  moves := hmoves
  alike hst := hst.cursor
  restored := by
    intro s t next next' hst hafter hs ht hreport
    refine ⟨hafter.restore hst.cursor hs ht, hafter.furthest, ?_⟩
    rw [Running.position_of_place (t := t) ht.returns_restore.place]
    exact Nat.le_trans hst.reached hreport.furthest
  worthTrying first s t hst :=
    ⟨mirrors_worthTrying first hst.toMirrors, (report_worthTrying p first s).symm ▸ hst.furthest,
      hst.reached⟩
  literal text :=
    levels_of_touches (simulates_literalStep text) (touches_literalStep text) (touches_literalStep text)
  regex pattern :=
    levels_of_touches (simulates_regexStep pattern) (touches_regexStep pattern)
      (touches_regexStep pattern)
  eof := levels_of_touches simulates_eofStep touches_eofStep touches_eofStep
  indentation := levels_of_touches simulates_indentation touches_indentation touches_indentation
  script source handle :=
    levels_of_touches (simulates_scriptStep hmoves hsees source handle)
      (touches_scriptStep hmoves source handle) (touches_scriptStep (p := p.bare) hmoves source handle)
  traced := levels_traced
  tooDeep := levels_tooDeep

theorem silent_of_skipped {c : Compiler} {r : Rule} {set : BitSet}
    (hguards : c.Guards p.literals r (some set)) {place : Place}
    (hskipped : (p.literalsStarting place.rest).overlaps set = false) :
    Silent c.leadContext r place := by
  intro depth lead hstarts
  obtain ⟨text, rfl, hoverlaps⟩ := overlaps_of_starts hguards hstarts
  refine .inr ⟨text, rfl, fun hprefix => ?_⟩
  cases hskipped.symm.trans (hoverlaps place hprefix)

theorem hushed_bare {c : Compiler} (hcarry : ∀ entry ∈ c.overrides, entry.2.CarriesNothing)
    (hpatterns : c.PatternsLead) (hmoves : p.scripts.OnlyMoves)
    (hdefines : ∀ rule ∈ p.rules, c.Defines p.names (c.Carries p.literals) rule) (room id : Nat)
    (name : String) (definition : Rule) (hname : p.names[id]? = some name)
    (hlookup : c.grammar.lookup name = some definition)
    (hpeeks : ¬ Lead.Peeks c.leadContext definition) :
    Hushed c.leadContext (p.bare.callRule room id) definition := by
  have hnames : p.bare.names = p.names := List.map_map
  rw [← hnames] at hname
  exact hushed_callRule (p := p.bare) hpatterns hmoves (defines_bare hcarry hdefines) room id name
    definition hname hlookup hpeeks

section

variable {c : Compiler} (hcarry : ∀ entry ∈ c.overrides, entry.2.CarriesNothing)
  (hpatterns : c.PatternsLead) (hmoves : p.scripts.OnlyMoves)
  (hdefines : ∀ rule ∈ p.rules, c.Defines p.names (c.Carries p.literals) rule) (hdiscreet : c.Discreet)
include hcarry hpatterns hmoves hdefines hdiscreet

/-- In a discreet grammar, what is skipped would look no further. -/
theorem furthest_of_skipped (room : Nat) {rule : CompiledRule} (hrule : rule ∈ p.rules)
    {branches : List (Option BitSet × Parser)} (hwithin : Parser.Within (.choice branches) rule.body)
    {first : Option BitSet} {branch : Parser} (hbranch : (first, branch) ∈ branches)
    {s t tried : Running} (hst : s.Levels p t) (htry : p.worthTrying first s = (false, tried)) :
    (node p.bare (p.bare.callRule room) branch.bare t).2.report.furthest = t.report.furthest := by
  have hworth := (worthTrying_spec first hst.remembers).1
  rw [htry, hst.remaining] at hworth
  cases first with
  | none => cases hworth
  | some set =>
    obtain ⟨definition, hlookup, hrenders⟩ := hdefines rule hrule
    obtain ⟨alternative, halternative, hcarries, hrenders'⟩ :=
      hrenders.exists_alternative hcarry (.definition hlookup) hwithin hbranch
    have hguards := hcarries.guards
    have hpeeks := hdiscreet alternative halternative fun depth lead hstarts =>
      (overlaps_of_starts hguards hstarts).imp fun _ h => h.1
    have hhushed := hushed_node (p := p.bare) hpatterns hmoves
      (backtracks_callRule (p := p.bare) hmoves room) (leads_bare hcarry hpatterns hmoves hdefines room)
      (hushed_bare hcarry hpatterns hmoves hdefines room) halternative.contains (hrenders'.bare hcarry)
      hpeeks
    exact hhushed t (silent_of_skipped hguards hworth.symm) hst.reached

theorem skipsAlike_of_discreet (room : Nat) :
    ∀ rule ∈ p.rules, p.SkipsAlike (Running.Levels p) (p.bare.callRule room) rule.body := by
  rintro rule hrule branches hwithin ⟨first, branch⟩ hbranch s t tried hst htry
  obtain ⟨next, hplain, hback⟩ := skipsAlike_of_guarded hmoves
    (backtracks_callRule (p := p.bare) hmoves room) (p.bare.reports_callRule room)
    (guarded_of_defines hcarry hpatterns hmoves hdefines room rule hrule) branches hwithin
    (first, branch) hbranch s t tried hst.toMirrors htry
  have hfurthest := furthest_of_skipped hcarry hpatterns hmoves hdefines hdiscreet room hrule hwithin
    hbranch hst htry
  have hcursor := cursor_worthTrying p first s
  have hreport := report_worthTrying p first s
  dsimp only at hplain htry
  rw [hplain] at hfurthest
  rw [htry] at hcursor hreport
  have hlevel : tried.report.furthest = next.report.furthest :=
    ((congrArg Report.furthest hreport).trans hst.furthest).trans hfurthest.symm
  refine ⟨next, hplain, hback, hlevel, ?_⟩
  rw [← hback.position, Running.position_of_place (t := s) (congrArg Cursor.place hcursor), hst.position]
  exact hst.reached.trans_eq hfurthest.symm

/-- In a discreet grammar a run on a whole text gets equally far with pruning and without. -/
theorem furthest_parse (hsees : p.scripts.SeesAlike) (text : String) :
    (p.parse text).report.furthest = (p.bare.parse text).report.furthest := by
  have hmirrors : (Running.start (.start text)).Mirrors p (.start (.start text)) :=
    ⟨.refl _, .refl _, Running.remembers_start p _⟩
  have hruns := (parallels_levels hmoves hsees).callRule
    (skipsAlike_of_discreet hcarry hpatterns hmoves hdefines hdiscreet) p.depthLimit p.start _ _
    ⟨hmirrors, rfl, Nat.zero_le _⟩
  exact hruns.after.furthest

end

end Program

namespace Compiler

private theorem reports_of_compile {c : Compiler} (hscripts : c.Scriptless)
    (hcarry : ∀ entry ∈ c.overrides, entry.2.CarriesNothing) (hpatterns : c.PatternsLead)
    {start : String} {p : Program} (hp : (c.compile start).1 = .ok p) (text : String) :
    (p.parse text).Mirrors (p.bare.parse text) ∧
      (c.Discreet → (p.parse text).report.furthest = (p.bare.parse text).report.furthest) := by
  have hdefines := defines_of_compile hp
  have hparse : (p.withScripts .none).parse text = p.parse text :=
    Program.runRule_withScripts (Program.scriptless_of_defines hscripts hdefines) .none _ _
  have hplain : (p.withScripts .none).bare.parse text = p.bare.parse text :=
    Program.runRule_withScripts
      (Program.scriptless_of_defines hscripts (Program.defines_bare hcarry hdefines)) .none _ _
  have hmoves : (p.withScripts .none).scripts.OnlyMoves := ScriptEngine.onlyMoves_none
  have hsees : (p.withScripts .none).scripts.SeesAlike := ScriptEngine.seesAlike_none
  rw [← hparse, ← hplain]
  refine ⟨?_, fun hdiscreet => ?_⟩
  · exact (Program.prunes_bare hmoves hsees
      (Program.guarded_of_defines hcarry hpatterns hmoves hdefines)).runs _ _
  · exact Program.furthest_parse hcarry hpatterns hmoves hdefines hdiscreet hsees text

/-- What pruning does to what is reported. Suppose that a grammar has no scripts, that what replaces names
carries nothing, and that patterns start as their analysis says. Then with and without pruning it gives the same
error, or programs that have the same outcome on every text, end at the same place and report at most as much
with pruning. If the grammar is discreet, they get equally far; and if the run without pruning met no limit
either, the reports are the same. Where a rule expands without end, neither gives a program. -/
theorem pruning_report {c : Compiler} (hscripts : c.Scriptless)
    (hcarry : ∀ entry ∈ c.overrides, entry.2.CarriesNothing) (hpatterns : c.PatternsLead)
    (start : String) :
    (∃ e, ((c.pruning true).compile start).1 = .error e ∧
        ((c.pruning false).compile start).1 = .error e) ∨
      ∃ p q, ((c.pruning true).compile start).1 = .ok p ∧ ((c.pruning false).compile start).1 = .ok q ∧
        ∀ text, (p.parse text).Mirrors (q.parse text) ∧
          (c.Discreet → (p.parse text).report.furthest = (q.parse text).report.furthest ∧
            ((q.parse text).report.depthLimitReached = false →
              (p.parse text).report = (q.parse text).report)) := by
  have hplain : ((c.pruning false).compile start).1 =
      ((c.pruning true).compile start).1.map Program.bare :=
    compile_pruning (c := c.pruning true) hcarry start
  cases hp : ((c.pruning true).compile start).1 with
  | error e =>
    rw [hp] at hplain
    exact .inl ⟨e, rfl, hplain⟩
  | ok p =>
    rw [hp] at hplain
    have hscripts' : (c.pruning true).Scriptless :=
      ⟨fun r hcontains => hscripts.definitions r hcontains.of_pruning, hscripts.overrides⟩
    have hpatterns' : (c.pruning true).PatternsLead :=
      fun r source pattern hcontains => hpatterns r source pattern hcontains.of_pruning
    refine .inr ⟨p, p.bare, rfl, hplain, fun text => ?_⟩
    obtain ⟨hmirrors, hlevel⟩ := reports_of_compile hscripts' hcarry hpatterns' hp text
    refine ⟨hmirrors, fun hdiscreet => ?_⟩
    have hfurthest := hlevel fun r ⟨node, rules, hcontains, hshape, hr⟩ =>
      hdiscreet r ⟨node, rules, hcontains.of_pruning, hshape, hr⟩
    have hreport : (p.parse text).report.Le (p.bare.parse text).report :=
      ⟨hmirrors.furthest, hmirrors.depthLimitReached⟩
    exact ⟨hfurthest, hreport.eq_of_furthest hfurthest⟩

end Compiler

/-- A grammar with an alternative in brackets, one of two literals, and one that is a pattern. -/
def Compiler.nestedValues : Compiler where
  grammar :=
    let literal : String → Rule := fun text => .combinator "$literal" (.text text)
    [("value", .combinator "$or" (.list [.list [literal "(", .text "value", literal ")"],
      .list [.combinator "$optional" (literal "+"), literal "1"], .combinator "$regex" (.text "-+")]))]
  fingerprint := ⟨[]⟩
  scripts := .none
  config := .default
  overrides := []

/-- The definitions of `Compiler.nestedValues` and what they are made of. -/
private def nestedValuesParts : List Rule :=
  let literal : String → Rule := fun text => .combinator "$literal" (.text text)
  let bracketed : Rule := .list [literal "(", .text "value", literal ")"]
  let sign : Rule := .combinator "$optional" (literal "+")
  let signed : Rule := .list [sign, literal "1"]
  let dashes : Rule := .combinator "$regex" (.text "-+")
  [literal "(", .text "value", literal ")", bracketed, literal "+", sign, literal "1", signed, dashes,
    .combinator "$or" (.list [bracketed, signed, dashes])]

private theorem shapes_nestedValues {r : Rule} (h : Compiler.nestedValues.Contains r) :
    (∀ source, r.shape ≠ .script source) ∧ (∀ part, r.shape ≠ .notAhead part) ∧
      ∀ source, r.shape = .regex source → source = "-+" := by
  have hr : r ∈ nestedValuesParts := h.mem (by decide) (by decide)
  rw [nestedValuesParts] at hr
  simp only [List.mem_cons, List.not_mem_nil, or_false] at hr
  rcases hr with rfl | rfl | rfl | rfl | rfl | rfl | rfl | rfl | rfl | rfl
  all_goals
    refine ⟨fun _ hshape => ?_, fun _ hshape => ?_, fun _ hshape => ?_⟩
    all_goals cases hshape
  rfl

/-- Between the brackets, the program with pruning skips the first alternative and the other one tries it. -/
theorem Compiler.pruning_report_nestedValues :
    nestedValues.Scriptless ∧ (∀ entry ∈ nestedValues.overrides, entry.2.CarriesNothing) ∧
      nestedValues.PatternsLead ∧
      ∃ p q, ((nestedValues.pruning true).compile "value").1 = .ok p ∧
        ((nestedValues.pruning false).compile "value").1 = .ok q ∧
        p.literals.entries = [(1, "("), (2, "+"), (3, "1"), (4, "-")] ∧
        (p.parse "(1)").report = ⟨3, false⟩ ∧ (p.parse "(1)").report = (q.parse "(1)").report := by
  have hscripts : nestedValues.Scriptless :=
    ⟨fun r hr => (shapes_nestedValues hr).1, fun entry hentry => (List.not_mem_nil hentry).elim⟩
  have hcarry : ∀ entry ∈ nestedValues.overrides, entry.2.CarriesNothing :=
    fun entry hentry => (List.not_mem_nil hentry).elim
  have hpatterns : nestedValues.PatternsLead :=
    patternsLead_of_dashes fun r source hcontains => (shapes_nestedValues hcontains).2.2 source
  have hdiscreet : nestedValues.Discreet :=
    discreet_of_shapes fun r part hcontains => (shapes_nestedValues hcontains).2.1 part
  have hcompiled : ((nestedValues.pruning true).compile "value").1.toOption.map (fun p =>
      (p.literals.entries, (p.parse "(1)").report)) =
        some ([(1, "("), (2, "+"), (3, "1"), (4, "-")], ⟨3, false⟩) := by
    decide +kernel
  have hlimit : ((nestedValues.pruning false).compile "value").1.toOption.map (fun q =>
      (q.parse "(1)").report.depthLimitReached) = some false := by
    decide +kernel
  refine ⟨hscripts, hcarry, hpatterns, ?_⟩
  rcases pruning_report hscripts hcarry hpatterns "value" with ⟨e, hfailed, -⟩ | ⟨p, q, hp, hq, hruns⟩
  · rw [hfailed] at hcompiled
    cases hcompiled
  · rw [hp] at hcompiled
    rw [hq] at hlimit
    obtain ⟨hliterals, hreport⟩ := Prod.mk.inj (Option.some.inj hcompiled)
    exact ⟨p, q, hp, hq, hliterals, hreport, ((hruns "(1)").2 hdiscreet).2 (Option.some.inj hlimit)⟩

/-- A grammar with an alternative that begins with a `$not`. -/
def Compiler.exceptions : Compiler where
  grammar :=
    let literal : String → Rule := fun text => .combinator "$literal" (.text text)
    [("start", .combinator "$or" (.list [
      .list [.combinator "$not" (literal "xyz"), literal "a"], literal "b"]))]
  fingerprint := ⟨[]⟩
  scripts := .none
  config := .default
  overrides := []

/-- The program of `Compiler.exceptions`. -/
def Program.exceptions : Program where
  rules := [⟨"start", .choice [
    (some ⟨0, [2]⟩, .sequence [.notAhead (.literal "xyz"), .literal "a"]),
    (some ⟨0, [4]⟩, .literal "b")]⟩]
  start := 0
  nesting := 4
  literals := ⟨0, [(1, "a"), (2, "b")], 2⟩
  scripts := .none
  config := .default
  fingerprint := ⟨[]⟩

/-- The definitions of `Compiler.exceptions` and what they are made of. -/
private def exceptionsParts : List Rule :=
  let literal : String → Rule := fun text => .combinator "$literal" (.text text)
  let negated : Rule := .combinator "$not" (literal "xyz")
  [literal "xyz", negated, literal "a", .list [negated, literal "a"], literal "b",
    .combinator "$or" (.list [.list [negated, literal "a"], literal "b"])]

/-- A `$not` at the start of an alternative is not seen where the alternative is skipped: on one and the same
text that does not match, the program with pruning gets nowhere, and the one without as far as the text goes. -/
theorem Compiler.lookahead_unreported :
    exceptions.Scriptless ∧ exceptions.PatternsLead ∧ exceptions.overrides = [] ∧
      ∃ p q, ((exceptions.pruning true).compile "start").1 = .ok p ∧
        ((exceptions.pruning false).compile "start").1 = .ok q ∧
        (p.parse "xyz").outcome = none ∧ (q.parse "xyz").outcome = none ∧
        (p.parse "xyz").report = ⟨0, false⟩ ∧ (q.parse "xyz").report = ⟨3, false⟩ := by
  have hshapes : ∀ r, exceptions.Contains r →
      (∀ source, r.shape ≠ .script source) ∧ ∀ source, r.shape ≠ .regex source := by
    intro r h
    have hr : r ∈ exceptionsParts := h.mem (by decide) (by decide)
    rw [exceptionsParts] at hr
    simp only [List.mem_cons, List.not_mem_nil, or_false] at hr
    rcases hr with rfl | rfl | rfl | rfl | rfl | rfl
    all_goals
      refine ⟨fun _ hshape => ?_, fun _ hshape => ?_⟩
      all_goals cases hshape
  have hcompiled : ((exceptions.pruning true).compile "start").1 = .ok Program.exceptions := by cbv
  have hcompiled' :
      ((exceptions.pruning false).compile "start").1 = .ok Program.exceptions.bare := by cbv
  refine ⟨⟨fun r hr => (hshapes r hr).1, fun entry hentry => (List.not_mem_nil hentry).elim⟩,
    fun r source _ hr hshape => ((hshapes r hr).2 source hshape).elim, rfl,
    _, _, hcompiled, hcompiled', ?_⟩
  decide +kernel

end PegGrammar
