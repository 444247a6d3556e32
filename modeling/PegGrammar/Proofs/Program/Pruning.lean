import Mathlib
import PegGrammar.Proofs.Pattern.Anchored
import PegGrammar.Proofs.Program.Mirroring

/-!
# Pruning is sound

Whether alternatives are pruned or not, a grammar compiles to the same error or to the same rules, except for
what alternatives carry. Runs of the two programs give the same on every text, from every cursor and with
every limit on nesting, also where the limit is met. Only the report of a run may say less with pruning,
because an alternative that is skipped gets nowhere.
-/

namespace PegGrammar

/-- A run with pruning and one without: the same tokens, position and open blocks, and a report that says no
more. -/
structure Program.Result.Mirrors (pruned plain : Program.Result) : Prop where
  outcome : pruned.outcome = plain.outcome
  position : pruned.cursor.position = plain.cursor.position
  indents : pruned.cursor.indents = plain.cursor.indents
  furthest : pruned.report.furthest ≤ plain.report.furthest
  depthLimitReached : pruned.report.depthLimitReached = true → plain.report.depthLimitReached = true

/-- A program with pruning and one without: the same rules, except for what alternatives carry, and the same
runs. -/
structure Program.Prunes (pruned plain : Program) : Prop where
  start : pruned.start = plain.start
  rules : pruned.rules.map CompiledRule.bare = plain.rules
  runs : ∀ id cursor, (pruned.runRule id cursor).Mirrors (plain.runRule id cursor)

theorem Program.prunes_bare {p : Program} (hmoves : p.scripts.OnlyMoves) (hsees : p.scripts.SeesAlike)
    (hguarded : ∀ room, ∀ rule ∈ p.rules, p.Guarded (p.bare.callRule room) rule.body) :
    p.Prunes p.bare := by
  refine ⟨rfl, rfl, fun id cursor => ?_⟩
  have hstart : (Running.start cursor).Mirrors p (.start cursor) :=
    ⟨.refl cursor, .refl _, Running.remembers_start p cursor⟩
  obtain ⟨houtcome, hafter⟩ :=
    simulates_callRule hmoves hsees hguarded p.depthLimit id _ _ hstart
  exact ⟨houtcome, hafter.position, hafter.cursor.indents, hafter.report.furthest,
    hafter.report.depthLimitReached⟩

namespace Compiler

theorem Contains.of_pruning {c : Compiler} {on : Bool} {r : Rule} (h : (c.pruning on).Contains r) :
    c.Contains r := by
  induction h with
  | definition hlookup => exact .definition hlookup
  | part _ hpart ih => exact ih.part hpart

/-- Pruning is sound. Suppose that what replaces names carries nothing, that scripts act through the moves
of a cursor and depend on what it shows only, and that patterns start as their analysis says. Then with and
without pruning a grammar gives the same error, or programs of the same rules and with the same runs. If the error is
that a rule expands without end, this says that neither gives a program. -/
theorem pruning_sound {c : Compiler} (hcarry : ∀ entry ∈ c.overrides, entry.2.CarriesNothing)
    (hmoves : c.scripts.OnlyMoves) (hsees : c.scripts.SeesAlike) (hpatterns : c.PatternsLead)
    (start : String) :
    (∃ e, ((c.pruning true).compile start).1 = .error e ∧
        ((c.pruning false).compile start).1 = .error e) ∨
      ∃ p q, ((c.pruning true).compile start).1 = .ok p ∧
        ((c.pruning false).compile start).1 = .ok q ∧ p.Prunes q := by
  have hplain : ((c.pruning false).compile start).1 =
      ((c.pruning true).compile start).1.map Program.bare :=
    compile_pruning (c := c.pruning true) hcarry start
  have hpatterns' : (c.pruning true).PatternsLead :=
    fun r source pattern hcontains => hpatterns r source pattern hcontains.of_pruning
  cases hp : ((c.pruning true).compile start).1 with
  | error e =>
    rw [hp] at hplain
    exact .inl ⟨e, rfl, hplain⟩
  | ok p =>
    rw [hp] at hplain
    have hengine : p.scripts = c.scripts := (settings_of_compile hp).1
    refine .inr ⟨p, p.bare, rfl, hplain, Program.prunes_bare (hengine ▸ hmoves) (hengine ▸ hsees) ?_⟩
    exact Program.guarded_of_compile (c := c.pruning true) hcarry hpatterns' hmoves hp

end Compiler

/-- Where all patterns of a grammar are dashes, one or more, they start as their analysis says. -/
theorem Compiler.patternsLead_of_dashes {c : Compiler}
    (h : ∀ r source, c.Contains r → r.shape = .regex source → source = "-+") : c.PatternsLead := by
  intro r source pattern hcontains hshape hpattern cursor result hmatch
  obtain rfl := h r source hcontains hshape
  obtain ⟨dashes, hdashes, hlooks, htree⟩ := Pattern.exists_of_parse? "-+" rfl rfl (by decide +kernel)
  obtain rfl : pattern = dashes := Option.some.inj (hpattern.symm.trans hdashes)
  have htakes : pattern.machine.Takes ['-'] pattern.machine.entry := by
    rw [pattern.machine_eq, htree]
    exact .look rfl (.char rfl (List.mem_singleton_self '-'))
  obtain ⟨first, hfirst, hprefix⟩ := Pattern.head_of_match? hlooks (htree ▸ rfl) htakes hmatch
  obtain rfl : first = '-' := List.mem_singleton.1 hfirst
  have hstarts : Pattern.startsOf? "-+" = some ["-"] := by decide +kernel
  refine .inr ⟨"-", ?_, hprefix⟩
  rw [Lead.ofPattern, hstarts]
  exact SortedSet.mem_single.2 rfl

/-- A grammar with an alternative that starts with a bracket, one that starts with a pattern, and one that is left to
a script. -/
def Compiler.brackets : Compiler where
  grammar := [
    ("value", .combinator "$or" (.list [.list [.text "[", .text "value", .text "end"],
      .list [.text "sign", .text "value"], .combinator "$script" (.text "digits")])),
    ("sign", .combinator "$regex" (.text "-+"))]
  fingerprint := ⟨[]⟩
  scripts := (Script.stockEngine []).toEngine
  config := { Config.default with bareLiterals := true }
  overrides := [("end", .literal "]")]

/-- The definitions of `Compiler.brackets` and what they are made of. -/
private def bracketsParts : List Rule :=
  let bracketed : Rule := .list [.text "[", .text "value", .text "end"]
  let signed : Rule := .list [.text "sign", .text "value"]
  let digits : Rule := .combinator "$script" (.text "digits")
  [.text "[", .text "value", .text "end", .text "sign", bracketed, signed, digits,
    .combinator "$or" (.list [bracketed, signed, digits]), .combinator "$regex" (.text "-+")]

private theorem patternsLead_brackets : Compiler.brackets.PatternsLead := by
  refine Compiler.patternsLead_of_dashes fun r source hcontains hshape => ?_
  have hr : r ∈ bracketsParts := hcontains.mem (by decide) (by decide)
  rw [bracketsParts] at hr
  simp only [List.mem_cons, List.not_mem_nil, or_false] at hr
  rcases hr with rfl | rfl | rfl | rfl | rfl | rfl | rfl | rfl | rfl
  all_goals cases hshape
  rfl

/-- The second alternative carries the dash that its pattern starts with. -/
theorem Compiler.pruning_sound_brackets :
    (∀ entry ∈ brackets.overrides, entry.2.CarriesNothing) ∧ brackets.scripts.OnlyMoves ∧
      brackets.scripts.SeesAlike ∧ brackets.PatternsLead ∧
      ∃ p q, ((brackets.pruning true).compile "value").1 = .ok p ∧
        ((brackets.pruning false).compile "value").1 = .ok q ∧
        p.rules.map CompiledRule.name = ["value", "sign"] ∧ p.literals.entries = [(1, "["), (2, "-")] ∧
        p.Prunes q := by
  have hcarry : ∀ entry ∈ brackets.overrides, entry.2.CarriesNothing := by
    intro entry hentry branches hwithin
    rw [List.mem_singleton.1 hentry] at hwithin
    cases hwithin with
    | part hpart => cases hpart
  have hmoves : brackets.scripts.OnlyMoves := Script.onlyMoves_stockEngine
  have hsees : brackets.scripts.SeesAlike := Script.seesAlike_stockEngine
  have hcompiled : ((brackets.pruning true).compile "value").1.toOption.map (fun p =>
      (p.rules.map CompiledRule.name, p.literals.entries)) = some (["value", "sign"], [(1, "["), (2, "-")]) := by
    decide +kernel
  refine ⟨hcarry, hmoves, hsees, patternsLead_brackets, ?_⟩
  rcases pruning_sound hcarry hmoves hsees patternsLead_brackets "value" with
    ⟨e, hfailed, -⟩ | ⟨p, q, hp, hq, hprunes⟩
  · rw [hfailed] at hcompiled
    cases hcompiled
  · rw [hp] at hcompiled
    obtain ⟨hnames, hliterals⟩ := Prod.mk.inj (Option.some.inj hcompiled)
    exact ⟨p, q, hp, hq, hnames, hliterals, hprunes⟩

end PegGrammar
