import PegGrammar.Proofs.Compile.Result
import PegGrammar.Proofs.Compile.Settings

/-!
# Compiling with literals in any order

The first set of an alternative is a set: in which order its literals get their numbers is not said, and may be
another one each time. A compiler goes through them in one order, that of their bytes. Here it is given the order
from outside, and otherwise does the same, by the shape of definitions. With the order of the bytes it is the
compiler that there is.
-/

namespace PegGrammar

/-- How the literals of first sets get their numbers: from which registry, and in which order. The order may depend on
all that the session knows, so that it can be another one for every alternative. -/
structure LiteralOrder where
  registry : Nat
  list : Session → FirstSet → List String
  perm (s : Session) (found : FirstSet) : (list s found).Perm found.literals

namespace LiteralOrder

/-- The order of the bytes, in the registry of a session that is not told otherwise. -/
def ascending : LiteralOrder := ⟨0, fun _ found => found.literals, fun _ _ => .refl _⟩

def descending : LiteralOrder :=
  ⟨1, fun _ found => found.literals.reverse, fun _ found => found.literals.reverse_perm⟩

theorem mem_list (order : LiteralOrder) {s : Session} {found : FirstSet} {text : String} :
    text ∈ order.list s found ↔ text ∈ found.literals :=
  (order.perm s found).mem_iff

/-- The session that nothing was done in yet. -/
def start (order : LiteralOrder) : Session := { Session.start with literals := .empty order.registry }

end LiteralOrder

namespace Compiling

variable (order : LiteralOrder) (c : Compiler)

/-- The numbers of the literals that an alternative starts with, given in an order, if it can be ruled out by them. -/
def branchLiteralsIn (r : Rule) : Compiling (Option BitSet) := do
  if c.config.pruneAlternatives then
    let s ← get
    let (first, leads) := Lead.ofRule c.leadContext r true s.leads
    if first.isPrunable then
      let (numbers, literals) := numbered (order.list s first) s.literals
      set { s with leads, literals }
      pure (some numbers)
    else
      set { s with leads }
      pure none
  else pure none

/-- An alternative, compiled by `compile`, with the literals that it starts with. -/
def branchIn (compile : Compiling Parser) (r : Rule) : Compiling (Option BitSet × Parser) := do
  let parser ← compile
  let first ← branchLiteralsIn order c r
  pure (first, parser)

/-- The parser of a definition. -/
def bodyIn (ofRule : Rule → String → Compiling Parser) (r : Rule) : Compiling Parser := do
  introduction r
  match _ : r.shape with
  | .sequence items => do
    pure (.sequence (← items.attach.mapM (fun ⟨item, _⟩ => bodyIn ofRule item)))
  | .choice rules => do
    pure (.choice (← rules.attach.mapM (fun ⟨rule, _⟩ => branchIn order c (bodyIn ofRule rule) rule)))
  | .repeated part => do pure (.repeated (← bodyIn ofRule part))
  | .ahead part => do pure (.ahead (← bodyIn ofRule part))
  | .notAhead part => do pure (.notAhead (← bodyIn ofRule part))
  | .optional part => do pure (.optional (← bodyIn ofRule part))
  | .annotated value => bodyIn ofRule value
  | shape => layer c ofRule shape
termination_by sizeOf r
decreasing_by
  all_goals
    refine Rule.sizeOf_lt_of_mem_parts ?_
    simp_all [Rule.Shape.parts]

/-- The parser of a definition under a name. -/
def ruleIn : Nat → Rule → String → Compiling Parser
  | 0, _, _ => fail .endlessExpansion
  | fuel + 1, definition, name =>
    let compile := bodyIn order c (ruleIn fuel) definition
    if name = "" then compile else do pure (.rule (← named name compile))

end Compiling

open Compiling

/-- Compiles the rule called `start` and all that it refers to, with literals in a given order. -/
def Compiler.compileIn (order : LiteralOrder) (c : Compiler) (start : String) : Except CompileError Program :=
  match c.grammar.lookup start with
  | none => .error (.unknownStart start)
  | some definition =>
    match (ruleIn order c (fuelFor c) definition start).result order.start with
    | (.error error, _) => .error error
    | (.ok _, session) =>
      match session.table.id? start with
      | none => .error (.unknownStart start)
      | some id => session.table.finish.map fun rules =>
        { rules, start := id, literals := session.literals, scripts := c.scripts
          nesting := rules.foldl (fun n rule => max n rule.body.nesting) 0
          config := c.config, fingerprint := c.fingerprint }

namespace Compiling

section

variable {order : LiteralOrder} {c : Compiler} {ofRule : Rule → String → Compiling Parser}

theorem result_branchLiteralsIn (r : Rule) (s : Session) :
    (branchLiteralsIn order c r).result s =
      if c.config.pruneAlternatives then
        let (first, leads) := Lead.ofRule c.leadContext r true s.leads
        if first.isPrunable then
          let (set, literals) := numbered (order.list s first) s.literals
          (.ok (some set), { s with leads, literals })
        else (.ok none, { s with leads })
      else (.ok none, s) := by
  rw [branchLiteralsIn]
  split
  · rw [result_bind, result_get]
    dsimp only
    generalize Lead.ofRule _ r true s.leads = found
    obtain ⟨first, leads⟩ := found
    dsimp only
    split
    · rw [result_bind, result_set]
      rfl
    · rw [result_bind, result_set]
      rfl
  · rfl

/-- All that the analysis of an alternative can do: its literals get their numbers, or the registry stays as it is. -/
theorem branchLiteralsIn_eq_ok {r : Rule} {s t : Session} {first : Option BitSet}
    (h : (branchLiteralsIn order c r).result s = (.ok first, t)) :
    t.table = s.table ∧
      (first = none ∧ t.literals = s.literals ∨
        ∃ found set, found = (Lead.ofRule c.leadContext r true s.leads).1 ∧ found.isPrunable = true ∧
          first = some set ∧ numbered (order.list s found) s.literals = (set, t.literals)) := by
  rw [result_branchLiteralsIn] at h
  dsimp only at h
  split at h
  · split at h
    · rename_i hprunable
      cases h
      exact ⟨rfl, .inr ⟨_, _, rfl, hprunable, rfl, rfl⟩⟩
    · cases h
      exact ⟨rfl, .inl ⟨rfl, rfl⟩⟩
  · cases h
    exact ⟨rfl, .inl ⟨rfl, rfl⟩⟩

theorem branchLiteralsIn_ascending (r : Rule) : branchLiteralsIn .ascending c r = branchLiterals c r :=
  funext fun s => (result_branchLiteralsIn r s).trans (result_branchLiterals c r s).symm

theorem bodies_eq_mapM (rules : List Rule) : bodies c ofRule rules = rules.mapM (body c ofRule) := by
  induction rules with
  | nil => rw [bodies_nil, List.mapM_nil]
  | cons r rules ih => rw [bodies_cons, List.mapM_cons, ih]

theorem branches_eq_mapM (rules : List Rule) :
    branches c ofRule rules = rules.mapM (fun r => branchIn .ascending c (body c ofRule r) r) := by
  induction rules with
  | nil => rw [branches_nil, List.mapM_nil]
  | cons r rules ih =>
    rw [branches_cons, List.mapM_cons, ih, branchIn, branchLiteralsIn_ascending]
    simp only [bind_assoc, pure_bind]

theorem mapM_attach {β : Type} {rules : List Rule} {f : {r // r ∈ rules} → Compiling β} {g : Rule → Compiling β}
    (h : ∀ r hr, f ⟨r, hr⟩ = g r) : rules.attach.mapM f = rules.mapM g := by
  rw [List.mapM_subtype h, List.unattach_attach]

theorem bodyIn_ascending (r : Rule) : bodyIn .ascending c ofRule r = body c ofRule r := by
  induction r using Rule.induction_on_parts with
  | step r ih =>
    have unary : ∀ (wrap : Parser → Parser) {part : Rule}, part ∈ r.shape.parts →
        (bodyIn .ascending c ofRule part >>= fun q => pure (wrap q)) =
          (body c ofRule part >>= fun q => pure (wrap q)) := fun wrap part hpart => by rw [ih part hpart]
    rw [bodyIn, body_eq]
    refine congrArg (introduction r >>= ·) (funext fun _ => ?_)
    split
    case h_1 items hshape =>
      have hitems : items.attach.mapM (fun item => bodyIn .ascending c ofRule item.1) = bodies c ofRule items := by
        rw [bodies_eq_mapM]
        exact mapM_attach fun item hitem => ih item (hshape ▸ hitem)
      rw [hshape]
      exact congrArg (fun m : Compiling (List Parser) => m >>= fun qs => pure (Parser.sequence qs)) hitems
    case h_2 rules hshape =>
      have hrules : rules.attach.mapM (fun r => branchIn .ascending c (bodyIn .ascending c ofRule r.1) r.1) =
          branches c ofRule rules := by
        rw [branches_eq_mapM]
        exact mapM_attach fun rule hrule => by rw [ih rule (hshape ▸ hrule)]
      rw [hshape]
      exact congrArg (fun m : Compiling (List (Option BitSet × Parser)) => m >>= fun qs => pure (Parser.choice qs))
        hrules
    case h_3 part hshape =>
      rw [hshape]
      exact unary .repeated (hshape ▸ List.mem_cons_self)
    case h_4 part hshape =>
      rw [hshape]
      exact unary .ahead (hshape ▸ List.mem_cons_self)
    case h_5 part hshape =>
      rw [hshape]
      exact unary .notAhead (hshape ▸ List.mem_cons_self)
    case h_6 part hshape =>
      rw [hshape]
      exact unary .optional (hshape ▸ List.mem_cons_self)
    case h_7 value hshape =>
      rw [hshape]
      exact ih value (hshape ▸ List.mem_cons_self)
    case h_8 => rfl

theorem ruleIn_ascending (fuel : Nat) : ruleIn .ascending c fuel = rule c fuel := by
  induction fuel with
  | zero => rfl
  | succ fuel ih =>
    funext definition name
    rw [ruleIn, rule, ih, bodyIn_ascending]

end

end Compiling

/-- In the order of the bytes, compiling gives what the compiler gives. -/
theorem Compiler.compileIn_ascending (c : Compiler) (start : String) :
    c.compileIn .ascending start = (c.compile start).1 := by
  rw [compileIn, compile]
  cases c.grammar.lookup start with
  | none => rfl
  | some definition =>
    have hresult : (ruleIn .ascending c (fuelFor c) definition start).result LiteralOrder.ascending.start =
        Session.start.compileRule c definition start := by
      rw [ruleIn_ascending]
      rfl
    dsimp only
    rw [hresult]
    rcases Session.start.compileRule c definition start with ⟨_ | _, session⟩
    · rfl
    dsimp only
    cases session.table.id? start with
    | none => rfl
    | some id =>
      dsimp only
      cases session.table.finish <;> rfl

theorem Compiler.exists_session_of_compileIn {order : LiteralOrder} {c : Compiler} {start : String} {p : Program}
    (h : c.compileIn order start = .ok p) :
    ∃ definition parser session rules,
      c.grammar.lookup start = some definition ∧
      (ruleIn order c (fuelFor c) definition start).result order.start = (.ok parser, session) ∧
      session.table.id? start = some p.start ∧ session.table.finish = .ok rules ∧
      p = { rules, start := p.start, literals := session.literals, scripts := c.scripts
            nesting := rules.foldl (fun n rule => max n rule.body.nesting) 0
            config := c.config, fingerprint := c.fingerprint } := by
  rw [compileIn] at h
  cases hdefinition : c.grammar.lookup start with
  | none =>
    rw [hdefinition] at h
    cases h
  | some definition =>
    rw [hdefinition] at h
    dsimp only at h
    rcases hresult : (ruleIn order c (fuelFor c) definition start).result order.start with ⟨_ | parser, session⟩
    · rw [hresult] at h
      cases h
    rw [hresult] at h
    dsimp only at h
    cases hid : session.table.id? start with
    | none =>
      rw [hid] at h
      cases h
    | some id =>
      rw [hid] at h
      cases hrules : session.table.finish with
      | error =>
        rw [hrules] at h
        cases h
      | ok rules =>
        rw [hrules] at h
        cases h
        exact ⟨definition, parser, session, rules, rfl, hresult, hid, hrules, rfl⟩

end PegGrammar
