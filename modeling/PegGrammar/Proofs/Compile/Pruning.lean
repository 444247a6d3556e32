import PegGrammar.Proofs.Compile.Result
import PegGrammar.Proofs.Compile.Settings
import PegGrammar.Proofs.Parser.Parts

/-!
# Compiling with and without pruning

Pruning is something that alternatives carry and nothing else: neither whether a grammar compiles, nor the
error, nor any number depends on it. Without pruning a session is the same as with it, seen without what
alternatives carry, without first sets and without literals. Every step keeps it that way.
-/

namespace PegGrammar

/-- The table without what alternatives carry. -/
def RuleTable.bare (t : RuleTable) : RuleTable :=
  ⟨t.rules.map (fun (name, body) => (name, body.map Parser.bare))⟩

/-- The session as it is without pruning. -/
def Session.bare (s : Session) : Session :=
  { s with table := s.table.bare, leads := .start, literals := .empty 0 }

/-- The rule without what its alternatives carry. -/
def CompiledRule.bare (rule : CompiledRule) : CompiledRule := ⟨rule.name, rule.body.bare⟩

/-- The compiler with pruning on or off. -/
def Compiler.pruning (c : Compiler) (on : Bool) : Compiler :=
  { c with config := { c.config with pruneAlternatives := on } }

/-- The program as it is without pruning. -/
def Program.bare (p : Program) : Program :=
  { p with
    rules := p.rules.map CompiledRule.bare
    literals := .empty 0
    config := { p.config with pruneAlternatives := false } }

/-! ### Tables -/

namespace RuleTable

@[simp] theorem id?_bare (t : RuleTable) (name : String) : t.bare.id? name = t.id? name := by
  rw [id?, bare, List.findIdx?_map, id?]
  rfl

@[simp] theorem size_bare (t : RuleTable) : t.bare.size = t.size := List.length_map _

theorem define_bare (t : RuleTable) (id : Nat) (body : Parser) :
    t.bare.define id body.bare = (t.define id body).bare := by
  rw [define, bare, define, bare]
  refine congrArg RuleTable.mk (List.ext_getElem? fun i => ?_)
  simp only [List.getElem?_map, List.getElem?_modify]
  cases t.rules[i]? with
  | none => rfl
  | some entry =>
    by_cases hid : id = i
    · simp [hid]
    · simp [hid]

theorem finish_bare (t : RuleTable) :
    t.bare.finish = t.finish.map (List.map CompiledRule.bare) := by
  obtain ⟨rules⟩ := t
  rw [finish, bare, finish]
  induction rules with
  | nil => rfl
  | cons entry rules ih =>
    dsimp only at ih ⊢
    obtain ⟨name, body⟩ := entry
    rw [List.map_cons, List.mapM_cons, List.mapM_cons, ih]
    cases body with
    | none => rfl
    | some body =>
      dsimp only
      generalize List.mapM (m := Except CompileError) _ rules = rest
      cases rest <;> rfl

end RuleTable

namespace Compiling

variable {α β γ δ : Type}

/-- A step without pruning does what a step with pruning does, seen without what pruning adds. -/
def Erases (f : α → β) (plain : Compiling β) (pruned : Compiling α) : Prop :=
  ∀ s, plain.result s.bare = ((pruned.result s).1.map f, (pruned.result s).2.bare)

theorem Passive.erases {m : Compiling α} (hm : Passive m) {f : α → α}
    (hf : ∀ s a t, m.result s = (.ok a, t) → f a = a) : Erases f m m := by
  intro s
  rcases hresult : m.result s with ⟨outcome, t⟩
  obtain ⟨htable, -, -⟩ := hm.unchanged hresult
  rw [Session.bare, hm, hresult]
  refine Prod.ext ?_ ?_
  · cases outcome with
    | error e => rfl
    | ok a => exact congrArg Except.ok (hf s a t hresult).symm
  · rw [Session.bare, htable]

theorem erases_pure (f : α → β) (a : α) : Erases f (pure (f a)) (pure a) := fun _ => rfl

theorem Erases.bind {f : α → β} {g : γ → δ} {m' : Compiling β} {m : Compiling α}
    {k' : β → Compiling δ} {k : α → Compiling γ} (hm : Erases f m' m)
    (hk : ∀ a, Erases g (k' (f a)) (k a)) : Erases g (m' >>= k') (m >>= k) := by
  intro s
  rw [result_bind, result_bind, hm s]
  rcases m.result s with ⟨e | a, t⟩
  · rfl
  · exact hk a t

theorem bare_branchLiterals (c : Compiler) (r : Rule) (s : Session) :
    ∃ first t, (branchLiterals c r).result s = (.ok first, t) ∧ t.bare = s.bare := by
  rw [result_branchLiterals]
  dsimp only
  split
  · split
    · exact ⟨_, _, rfl, rfl⟩
    · exact ⟨_, _, rfl, rfl⟩
  · exact ⟨_, _, rfl, rfl⟩

section

variable {c : Compiler} {plain pruned : Rule → String → Compiling Parser}

theorem erases_reference (hcarry : ∀ entry ∈ c.overrides, entry.2.CarriesNothing)
    (hofRule : ∀ definition name, Erases Parser.bare (plain definition name) (pruned definition name))
    (name : String) :
    Erases Parser.bare (reference (c.pruning false) plain name) (reference c pruned name) := by
  rw [reference_eq, reference_eq]
  dsimp only [Compiler.pruning]
  cases hreplaced : c.overrides.lookup name with
  | some replacement =>
    refine Passive.erases ((passive_note _).bind fun _ => passive_pure _) fun s q t h => ?_
    obtain ⟨_, _, _, h⟩ := result_bind_eq_ok.1 h
    obtain ⟨rfl, rfl⟩ := result_pure_eq_ok.1 h
    exact Parser.bare_eq_self (hcarry _ (mem_of_lookup hreplaced))
  | none =>
    dsimp only
    cases c.grammar.lookup name with
    | some definition => exact hofRule definition name
    | none =>
      refine (passive_undefined c name).erases fun s q t h => ?_
      rcases Compiler.leaf_of_undefined? (undefined_eq_ok h) with rfl | rfl | rfl
      all_goals rfl

theorem erases_bodies {rules : List Rule}
    (hrules : ∀ r ∈ rules,
      Erases Parser.bare (body (c.pruning false) plain r) (body c pruned r)) :
    Erases Parser.bareItems (bodies (c.pruning false) plain rules) (bodies c pruned rules) := by
  induction rules with
  | nil =>
    rw [bodies_nil, bodies_nil]
    exact erases_pure Parser.bareItems []
  | cons r rules ih =>
    rw [bodies_cons, bodies_cons]
    have hrest := ih fun r hr => hrules r (List.mem_cons_of_mem _ hr)
    exact (hrules r List.mem_cons_self).bind fun q => hrest.bind fun qs =>
      erases_pure Parser.bareItems (q :: qs)

theorem erases_branches {rules : List Rule}
    (hrules : ∀ r ∈ rules,
      Erases Parser.bare (body (c.pruning false) plain r) (body c pruned r)) :
    Erases Parser.bareBranches (branches (c.pruning false) plain rules)
      (branches c pruned rules) := by
  induction rules with
  | nil =>
    rw [branches_nil, branches_nil]
    exact erases_pure Parser.bareBranches []
  | cons r rules ih =>
    rw [branches_cons, branches_cons]
    refine (hrules r List.mem_cons_self).bind fun q => ?_
    have hrest := ih fun r hr => hrules r (List.mem_cons_of_mem _ hr)
    intro s
    obtain ⟨first, t, hfirst, hbare⟩ := bare_branchLiterals c r s
    have hplain : (branchLiterals (c.pruning false) r).result s.bare = (.ok none, s.bare) := rfl
    rw [result_bind, result_bind, hplain, hfirst, ← hbare]
    exact hrest.bind (fun qs => erases_pure Parser.bareBranches ((first, q) :: qs)) t

theorem erases_layer (hcarry : ∀ entry ∈ c.overrides, entry.2.CarriesNothing)
    (hofRule : ∀ definition name, Erases Parser.bare (plain definition name) (pruned definition name))
    {shape : Rule.Shape} (hparts : ∀ part ∈ shape.parts,
      Erases Parser.bare (body (c.pruning false) plain part) (body c pruned part)) :
    Erases Parser.bare (layer (c.pruning false) plain shape) (layer c pruned shape) := by
  have hpart : ∀ part, shape.parts = [part] →
      Erases Parser.bare (body (c.pruning false) plain part) (body c pruned part) :=
    fun part heq => hparts part (heq ▸ List.mem_singleton_self part)
  cases shape with
  | reference name => exact erases_reference hcarry hofRule name
  | sequence items =>
    exact (erases_bodies hparts).bind fun qs => erases_pure Parser.bare (.sequence qs)
  | choice rules =>
    exact (erases_branches hparts).bind fun qs => erases_pure Parser.bare (.choice qs)
  | repeated part => exact (hpart part rfl).bind fun q => erases_pure Parser.bare (.repeated q)
  | ahead part => exact (hpart part rfl).bind fun q => erases_pure Parser.bare (.ahead q)
  | notAhead part => exact (hpart part rfl).bind fun q => erases_pure Parser.bare (.notAhead q)
  | optional part => exact (hpart part rfl).bind fun q => erases_pure Parser.bare (.optional q)
  | annotated value => exact hpart value rfl
  | literal text =>
    refine (passive_literal text).erases fun s q t h => ?_
    rw [(literal_eq_ok h).2]
    rfl
  | regex source =>
    dsimp only [layer, Parser.ofPattern?]
    cases Pattern.ofString? source with
    | none => exact fun _ => rfl
    | some pattern => exact fun _ => rfl
  | script source =>
    have hscripts : (c.pruning false).scripts = c.scripts := rfl
    dsimp only [layer]
    rw [hscripts]
    cases c.scripts.compile source with
    | error reason => exact fun _ => rfl
    | ok handle => exact fun _ => rfl
  | eof | indent | wrong => exact fun _ => rfl

theorem erases_body (hcarry : ∀ entry ∈ c.overrides, entry.2.CarriesNothing)
    (hofRule : ∀ definition name, Erases Parser.bare (plain definition name) (pruned definition name))
    (r : Rule) : Erases Parser.bare (body (c.pruning false) plain r) (body c pruned r) := by
  induction r using Rule.induction_on_parts with
  | step r ih =>
    rw [body_eq, body_eq]
    exact ((passive_introduction r).erases (f := id) fun _ _ _ _ => rfl).bind fun _ =>
      erases_layer hcarry hofRule ih

end

theorem erases_named {plain pruned : Compiling Parser} (h : Erases Parser.bare plain pruned)
    (name : String) : Erases id (named name plain) (named name pruned) := by
  intro s
  have hid : s.bare.table.id? name = s.table.id? name := RuleTable.id?_bare s.table name
  have hsize : s.bare.table.size = s.table.size := RuleTable.size_bare s.table
  have hentering : s.bare.entering name = (s.entering name).bare := by
    simp [Session.entering, Session.bare, RuleTable.bare]
  rw [result_named, result_named, hid, hentering, h, hsize]
  cases s.table.id? name with
  | some id => rfl
  | none =>
    dsimp only
    rcases pruned.result (s.entering name) with ⟨e | body, t⟩
    · rfl
    · have hkeeping : t.bare.leaving.keeping s.table.size name body.bare =
          (t.leaving.keeping s.table.size name body).bare := by
        change Session.record { t.bare.leaving with table := t.table.bare.define _ _ } _ _ = _
        rw [RuleTable.define_bare]
        rfl
      exact Prod.ext rfl hkeeping

theorem erases_rule {c : Compiler} (hcarry : ∀ entry ∈ c.overrides, entry.2.CarriesNothing)
    (fuel : Nat) (definition : Rule) (name : String) :
    Erases Parser.bare (rule (c.pruning false) fuel definition name) (rule c fuel definition name) := by
  induction fuel generalizing definition name with
  | zero => exact fun _ => rfl
  | succ fuel ih =>
    have hbody := erases_body hcarry ih definition
    rw [rule, rule]
    split
    · exact hbody
    · exact (erases_named hbody name).bind fun id => erases_pure Parser.bare (.rule id)

end Compiling

/-- Compiling without pruning gives the same error, or the same program without what alternatives carry. -/
theorem Compiler.compile_pruning {c : Compiler}
    (hcarry : ∀ entry ∈ c.overrides, entry.2.CarriesNothing) (start : String) :
    ((c.pruning false).compile start).1 = (c.compile start).1.map Program.bare := by
  have hrun : ∀ definition, Session.start.compileRule (c.pruning false) definition start =
      (((Session.start.compileRule c definition start).1.map Parser.bare),
        (Session.start.compileRule c definition start).2.bare) :=
    fun definition => Compiling.erases_rule hcarry (Compiling.fuelFor c) definition start .start
  have hgrammar : (c.pruning false).grammar = c.grammar := rfl
  rw [compile, compile, hgrammar]
  cases c.grammar.lookup start with
  | none => rfl
  | some definition =>
    dsimp only
    rw [hrun]
    rcases Session.start.compileRule c definition start with ⟨e | q, s⟩
    · rfl
    have hid : s.bare.table.id? start = s.table.id? start := RuleTable.id?_bare s.table start
    have hfinish : s.bare.table.finish = s.table.finish.map (List.map CompiledRule.bare) :=
      RuleTable.finish_bare s.table
    dsimp only [Except.map]
    rw [hid, hfinish]
    cases s.table.id? start with
    | none => rfl
    | some id =>
      dsimp only
      cases s.table.finish with
      | error e => rfl
      | ok rules =>
        have hnesting : (rules.map CompiledRule.bare).foldl (fun n rule => max n rule.body.nesting) 0
            = rules.foldl (fun n rule => max n rule.body.nesting) 0 := by
          rw [List.foldl_map]
          simp only [CompiledRule.bare, Parser.nesting_bare]
        dsimp only [Except.map]
        rw [hnesting]
        rfl

end PegGrammar
