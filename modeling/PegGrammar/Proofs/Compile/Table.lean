import Mathlib
import PegGrammar.Proofs.Compile.Faithful
import PegGrammar.Proofs.Compile.Settings

/-!
# The table of a program

A program is made from a session that began with nothing and compiled one rule. All rules of such a
session are finished, so there is nothing to complain about, and their names are those that a walk from the
start meets. Since a walk meets what can be reached and no name twice, the table is exact, and a number
in a body is the number of the name that was referred to.
-/

namespace PegGrammar

open Compiling

theorem RuleTable.finish_of_finished (rules : List CompiledRule) :
    (RuleTable.mk (rules.map (fun rule => (rule.name, some rule.body)))).finish = .ok rules := by
  rw [finish]
  induction rules with
  | nil => rfl
  | cons rule rules ih =>
    rw [List.map_cons, List.mapM_cons, ih]
    rfl

theorem RuleTable.rules_of_finish {t : RuleTable} {rules : List CompiledRule} (h : t.finish = .ok rules) :
    t.rules = rules.map (fun rule => (rule.name, some rule.body)) := by
  obtain ⟨entries⟩ := t
  induction entries generalizing rules with
  | nil =>
    cases h
    rfl
  | cons entry entries ih =>
    obtain ⟨name, _ | body⟩ := entry
    · rw [finish, List.mapM_cons] at h
      cases h
    · have hcons : (mk ((name, some body) :: entries)).finish =
          (mk entries).finish >>= fun rest => .ok (⟨name, body⟩ :: rest) := by
        rw [finish, List.mapM_cons]
        rfl
      rw [hcons] at h
      cases hrest : (mk entries).finish with
      | error given =>
        rw [hrest] at h
        cases h
      | ok rest =>
        rw [hrest] at h
        cases h
        exact congrArg ((name, some body) :: ·) (ih hrest)

/-- The names of the rules, in the order of their numbers. -/
def Program.names (p : Program) : List String := p.rules.map CompiledRule.name

/-- A session that compiled a start rule holds finished rules only: those that a walk from the start meets,
each with the parser of its definition. -/
theorem Session.rules_of_compileRule {c : Compiler} {start : String} {definition : Rule} {q : Parser}
    {s : Session} (hlookup : c.grammar.lookup start = some definition) (hne : start ≠ "")
    (h : Session.start.compileRule c definition start = (.ok q, s)) :
    ∃ rules : List CompiledRule, s.table.finish = .ok rules ∧ s.table.id? start = some 0 ∧
      rules.head?.map CompiledRule.name = some start ∧
      c.Meets [start] [definition] (rules.map CompiledRule.name) ∧
      ∀ rule ∈ rules, c.Defines (rules.map CompiledRule.name) (c.Carries s.literals) rule := by
  change (Compiling.rule c (2 * c.grammar.length + 2 + 1) definition start).result .start = _ at h
  rw [Compiling.rule, if_neg hne] at h
  obtain ⟨id, mid, hnamed, h⟩ := result_bind_eq_ok.1 h
  obtain ⟨-, rfl⟩ := result_pure_eq_ok.1 h
  obtain ⟨⟨⟨rules, hrules, hdefines⟩, -, -⟩, hname, rfl, hmeets⟩ :=
    grows_named hlookup (faithful_body (faithful_rule _) definition) .start rfl hnamed
  have hnames : s.names = rules.map CompiledRule.name := by
    rw [names, hrules]
    exact List.map_map
  rw [hnames] at hname hmeets hdefines
  change s.table.rules = rules.map _ at hrules
  have htable : s.table = ⟨rules.map (fun rule => (rule.name, some rule.body))⟩ :=
    congrArg RuleTable.mk hrules
  cases rules with
  | nil => cases hname
  | cons first rules =>
    change some first.name = some start at hname
    refine ⟨first :: rules, htable ▸ RuleTable.finish_of_finished _, ?_, hname, hmeets, hdefines⟩
    rw [htable, RuleTable.id?, List.map_cons, List.findIdx?_cons]
    simp [Option.some.inj hname]

theorem Compiler.ne_empty_of_compile {c : Compiler} {start : String} {p : Program}
    (hp : (c.compile start).1 = .ok p) : start ≠ "" := by
  rintro rfl
  obtain ⟨definition, q, s, rules, -, hs, hid, -⟩ := exists_session_of_compile hp
  change (Compiling.rule c (2 * c.grammar.length + 2 + 1) definition "").result .start = _ at hs
  rw [Compiling.rule, if_pos rfl] at hs
  have hmeets := (faithful_body (faithful_rule _) definition .start q s .start hs).advances.meets
  have hempty : "" ∉ s.names := hmeets.empty_not_mem (List.not_mem_nil)
  exact hempty (List.mem_of_getElem? (names_getElem?_of_id? hid))

/-- The rules of a program have the parsers of their definitions. -/
theorem Compiler.defines_of_compile {c : Compiler} {start : String} {p : Program}
    (hp : (c.compile start).1 = .ok p) :
    ∀ rule ∈ p.rules, c.Defines p.names (c.Carries p.literals) rule := by
  obtain ⟨definition, q, s, rules, hlookup, hs, -, hfinish, hprogram⟩ := exists_session_of_compile hp
  obtain ⟨rules', hfinish', -, -, -, hdefines⟩ :=
    Session.rules_of_compileRule hlookup (ne_empty_of_compile hp) hs
  cases hfinish.symm.trans hfinish'
  rw [Program.names, hprogram]
  exact hdefines

/-- What a program is to its grammar: the closed table of the rules that can be reached from the start,
numbered as a walk from the start meets them, each with the parser of its definition. -/
structure Program.Tabulates (p : Program) (c : Compiler) (start : String) : Prop where
  start_eq : p.start = 0
  first : p.names[0]? = some start
  nodup : p.names.Nodup
  reachable : ∀ name, name ∈ p.names ↔ name ≠ "" ∧ Relation.ReflTransGen c.Refers start name
  met : ∃ definition, c.grammar.lookup start = some definition ∧
    c.Meets [start] [definition] p.names
  closed : ∀ rule ∈ p.rules, ∀ id, (Parser.rule id).Within rule.body → id < p.rules.length
  defined : ∀ rule ∈ p.rules, c.Defines p.names (c.Carries p.literals) rule

/-- Compiling a start rule gives no error about an unfinished rule, and a program that is the exact table of
what can be reached from it. -/
theorem Compiler.tabulates_of_compile (c : Compiler) {start : String} (hne : start ≠ "")
    (hreplaced : ∀ entry ∈ c.overrides, entry.2.CallsNothing) :
    (∀ definition q s, c.grammar.lookup start = some definition →
      Session.start.compileRule c definition start = (.ok q, s) →
        ∃ rules, s.table.finish = .ok rules) ∧
    ∀ p, (c.compile start).1 = .ok p → p.Tabulates c start := by
  constructor
  · intro definition q s hlookup h
    obtain ⟨rules, hrules, -⟩ := Session.rules_of_compileRule hlookup hne h
    exact ⟨rules, hrules⟩
  · intro p hp
    obtain ⟨definition, q, s, rules, hlookup, hs, hid, hfinish, hprogram⟩ :=
      exists_session_of_compile hp
    obtain ⟨rules', hfinish', hid', hfirst, hmeets, hdefines⟩ :=
      Session.rules_of_compileRule hlookup hne hs
    cases hfinish.symm.trans hfinish'
    have hstart : p.start = 0 := Option.some.inj (hid.symm.trans hid')
    have hrules : p.rules = rules := by rw [hprogram]
    have hnames : p.names = rules.map CompiledRule.name := congrArg _ hrules
    rw [← hnames] at hmeets hdefines
    have hempty : "" ∉ p.names :=
      hmeets.empty_not_mem (fun hmem => hne (List.mem_singleton.1 hmem).symm)
    constructor
    case start_eq => exact hstart
    case first => rw [hnames, List.getElem?_map, ← List.head?_eq_getElem?, hfirst]
    case nodup => exact hmeets.nodup (List.pairwise_singleton _ _)
    case reachable =>
      intro name
      rw [← hmeets.mem_iff hlookup hne]
      exact ⟨fun hname => ⟨fun heq => hempty (heq ▸ hname), hname⟩, And.right⟩
    case met => exact ⟨definition, hlookup, hmeets⟩
    case closed =>
      intro rule hrule id hcall
      obtain ⟨_, -, hrenders⟩ := hdefines rule (hrules ▸ hrule)
      have hlt := hrenders.lt_of_calls hreplaced hcall
      rwa [Program.names, List.length_map] at hlt
    case defined => exact defines_of_compile hp

/-- A grammar whose rules refer to each other, also through the rule without a name, and to a replaced
name. -/
def Compiler.sums : Compiler where
  grammar := [("", .list [.text "term", .text "blank"]),
    ("sum", .list [.text "term", .combinator "$optional" (.list [.text "blank", .text "sum"])]),
    ("term", .combinator "$or" (.list [.text "digit", .list [.text "", .text "sum"]])),
    ("unused", .text "sum")]
  fingerprint := ⟨[]⟩
  scripts := .none
  config := { Config.default with pruneAlternatives := false, bareLiterals := true }
  overrides := [("blank", .literal " ")]

/-- The program of `Compiler.sums`. -/
def Program.sums : Program where
  rules := [
    ⟨"sum", .sequence [.rule 1, .optional (.sequence [.literal " ", .rule 0])]⟩,
    ⟨"term", .choice [(none, .literal "digit"),
      (none, .sequence [.sequence [.rule 1, .literal " "], .rule 0])]⟩]
  start := 0
  nesting := 4
  literals := .empty 0
  scripts := .none
  config := Compiler.sums.config
  fingerprint := ⟨[]⟩

theorem Compiler.callsNothing_sums : ∀ entry ∈ sums.overrides, entry.2.CallsNothing := by
  intro entry hentry id hcall
  rw [List.mem_singleton.1 hentry] at hcall
  cases hcall with
  | part hpart => cases hpart

theorem Compiler.tabulates_of_compile_sums :
    "sum" ≠ "" ∧ (∀ entry ∈ sums.overrides, entry.2.CallsNothing) ∧
      (sums.compile "sum").1 = .ok Program.sums ∧ Program.sums.Tabulates sums "sum" := by
  have hne : "sum" ≠ "" := by decide
  have hcompiled : (sums.compile "sum").1 = .ok Program.sums := by cbv
  exact ⟨hne, callsNothing_sums, hcompiled,
    (tabulates_of_compile sums hne callsNothing_sums).2 _ hcompiled⟩

end PegGrammar
