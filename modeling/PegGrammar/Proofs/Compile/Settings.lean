import PegGrammar.Program.Basic
import PegGrammar.Proofs.Compile.Layer

/-!
# What compiling depends on

Of the options, compiling reads two: whether alternatives are pruned, and whether undefined names stand
for themselves. Compilers that agree on these, on the grammar, on the engine and on the replaced names do
the same at every step, so they give the same table or the same error.
-/

namespace PegGrammar

/-- Compilers that differ at most in the fingerprint and in the options for running programs. -/
structure Compiler.CompilesLike (c d : Compiler) : Prop where
  grammar : c.grammar = d.grammar
  scripts : c.scripts = d.scripts
  overrides : c.overrides = d.overrides
  pruneAlternatives : c.config.pruneAlternatives = d.config.pruneAlternatives
  bareLiterals : c.config.bareLiterals = d.config.bareLiterals

variable {c d : Compiler}

namespace Compiling

theorem reference_congr (h : c.CompilesLike d) (ofRule : Rule → String → Compiling Parser)
    (text : String) : reference c ofRule text = reference d ofRule text := by
  rw [reference, reference, h.overrides, h.grammar, h.bareLiterals]

theorem branchLiterals_congr (h : c.CompilesLike d) (r : Rule) :
    branchLiterals c r = branchLiterals d r := by
  rw [branchLiterals, branchLiterals, h.overrides, h.grammar, h.bareLiterals, h.pruneAlternatives]

section

variable {ofRule : Rule → String → Compiling Parser}

theorem bodies_congr {rules : List Rule}
    (hrules : ∀ r ∈ rules, body c ofRule r = body d ofRule r) :
    bodies c ofRule rules = bodies d ofRule rules := by
  induction rules with
  | nil => rw [bodies_nil, bodies_nil]
  | cons r rules ih =>
    rw [bodies_cons, bodies_cons, hrules r List.mem_cons_self,
      ih (fun r hr => hrules r (List.mem_cons_of_mem _ hr))]

theorem branches_congr (h : c.CompilesLike d) {rules : List Rule}
    (hrules : ∀ r ∈ rules, body c ofRule r = body d ofRule r) :
    branches c ofRule rules = branches d ofRule rules := by
  induction rules with
  | nil => rw [branches_nil, branches_nil]
  | cons r rules ih =>
    rw [branches_cons, branches_cons, hrules r List.mem_cons_self, branchLiterals_congr h,
      ih (fun r hr => hrules r (List.mem_cons_of_mem _ hr))]

theorem layer_congr (h : c.CompilesLike d) {shape : Rule.Shape}
    (hparts : ∀ part ∈ shape.parts, body c ofRule part = body d ofRule part) :
    layer c ofRule shape = layer d ofRule shape := by
  have hpart : ∀ part, shape.parts = [part] → body c ofRule part = body d ofRule part :=
    fun part heq => hparts part (heq ▸ List.mem_singleton_self part)
  have unary : ∀ (wrap : Parser → Parser) {m m' : Compiling Parser}, m = m' →
      (m >>= fun q => pure (wrap q)) = (m' >>= fun q => pure (wrap q)) := by
    intro wrap m m' heq
    rw [heq]
  cases shape with
  | reference name => exact reference_congr h ofRule name
  | sequence items =>
    exact congrArg (fun m : Compiling (List Parser) => m >>= fun qs => pure (Parser.sequence qs))
      (bodies_congr hparts)
  | choice rules =>
    exact congrArg (fun m : Compiling (List (Option BitSet × Parser)) =>
      m >>= fun qs => pure (Parser.choice qs)) (branches_congr h hparts)
  | repeated part => exact unary Parser.repeated (hpart part rfl)
  | ahead part => exact unary Parser.ahead (hpart part rfl)
  | notAhead part => exact unary Parser.notAhead (hpart part rfl)
  | optional part => exact unary Parser.optional (hpart part rfl)
  | annotated part => exact hpart part rfl
  | script source =>
    dsimp only [layer]
    rw [h.scripts]
  | literal | regex | eof | indent | wrong => rfl

end

theorem body_congr (h : c.CompilesLike d) (ofRule : Rule → String → Compiling Parser) (r : Rule) :
    body c ofRule r = body d ofRule r := by
  induction r using Rule.induction_on_parts with
  | step r ih => rw [body_eq, body_eq, layer_congr h ih]

theorem rule_congr (h : c.CompilesLike d) (fuel : Nat) : rule c fuel = rule d fuel := by
  induction fuel with
  | zero => rfl
  | succ fuel ih =>
    funext definition name
    rw [rule, rule, ih, body_congr h]

end Compiling

theorem Session.compileRule_congr (h : c.CompilesLike d) (definition : Rule) (name : String)
    (s : Session) : s.compileRule c definition name = s.compileRule d definition name := by
  rw [compileRule, compileRule, Compiling.rule_congr h, Compiling.fuelFor, Compiling.fuelFor, h.grammar]

/-- A program comes from a session that compiled its start rule and finished all rules. -/
theorem Compiler.exists_session_of_compile {start : String} {p : Program}
    (h : (c.compile start).1 = .ok p) :
    ∃ definition parser session rules,
      c.grammar.lookup start = some definition ∧
      Session.start.compileRule c definition start = (.ok parser, session) ∧
      session.table.id? start = some p.start ∧ session.table.finish = .ok rules ∧
      p = { rules, start := p.start, literals := session.literals, scripts := c.scripts
            nesting := rules.foldl (fun n rule => max n rule.body.nesting) 0
            config := c.config, fingerprint := c.fingerprint } := by
  rw [compile] at h
  cases hdefinition : c.grammar.lookup start with
  | none =>
    rw [hdefinition] at h
    cases h
  | some definition =>
    rw [hdefinition] at h
    dsimp only at h
    rcases hresult : Session.start.compileRule c definition start with ⟨error | parser, session⟩
    · rw [hresult] at h
      cases h
    rw [hresult] at h
    dsimp only at h
    cases hid : session.table.id? start with
    | none =>
      rw [hid] at h
      cases h
    | some id =>
      rw [hid] at h
      dsimp only at h
      cases hrules : session.table.finish with
      | error =>
        rw [hrules] at h
        cases h
      | ok rules =>
        rw [hrules] at h
        dsimp only at h
        cases h
        exact ⟨definition, parser, session, rules, rfl, hresult, hid, hrules, rfl⟩

theorem Compiler.settings_of_compile {start : String} {p : Program} (h : (c.compile start).1 = .ok p) :
    p.scripts = c.scripts ∧ p.config = c.config := by
  obtain ⟨_, _, _, _, _, _, _, _, hprogram⟩ := exists_session_of_compile h
  constructor
  all_goals rw [hprogram]

/-- Compilers that agree on what is compiled give the same error, or programs that differ at most in
their options and fingerprint. -/
theorem Compiler.compile_congr (h : c.CompilesLike d) (start : String) :
    (d.compile start).1 = (c.compile start).1.map
      (fun p => { p with config := d.config, fingerprint := d.fingerprint }) := by
  rw [compile, compile, ← h.grammar]
  cases c.grammar.lookup start with
  | none => rfl
  | some definition =>
    dsimp only
    rw [← Session.compileRule_congr h, ← h.scripts]
    generalize Session.start.compileRule c definition start = result
    obtain ⟨outcome, session⟩ := result
    cases outcome with
    | error => rfl
    | ok parser =>
      dsimp only
      cases session.table.id? start with
      | none => rfl
      | some id =>
        dsimp only
        cases session.table.finish <;> rfl

end PegGrammar
