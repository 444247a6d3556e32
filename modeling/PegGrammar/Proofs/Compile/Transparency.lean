import PegGrammar.Proofs.Compile.Result
import PegGrammar.Proofs.Compile.Settings
import PegGrammar.Proofs.Lead.Derivation
import PegGrammar.Proofs.Rule.Plain

/-!
# Compiling plain notation

The analysis of first sets sees no difference between a definition and its plain notation, and compiling
sees none but in what it notes: an annotation is checked and noted before it is looked through, and where
there is none there is nothing to check. So two sessions are run side by side that are equal but for their
logs. As long as the one goes on, so does the other, and the table, the first sets and the literals stay
the same.
-/

namespace PegGrammar

/-- The compiler of the grammar in plain notation. -/
def Compiler.plain (c : Compiler) : Compiler :=
  let grammar := c.grammar.map (fun (name, definition) => (name, definition.plain))
  { c with grammar, fingerprint := .ofRule (.map grammar) }

theorem Compiler.lookup_plain (c : Compiler) (name : String) :
    c.plain.grammar.lookup name = (c.grammar.lookup name).map Rule.plain := by
  rw [plain]
  induction c.grammar with
  | nil => rfl
  | cons entry grammar ih =>
    obtain ⟨key, definition⟩ := entry
    rw [List.map_cons, List.lookup_cons, List.lookup_cons]
    cases name == key with
    | true => rfl
    | false => exact ih

/-! ### First sets -/

namespace Lead

variable {ofName : String → Walk} {onlyStart : Bool}

theorem walkList_plain {items : List Rule}
    (h : ∀ r ∈ items, walk ofName onlyStart r.plain = walk ofName onlyStart r) (found : FirstSet) :
    walkList ofName onlyStart found (items.map Rule.plain) =
      walkList ofName onlyStart found items := by
  induction items generalizing found with
  | nil => rfl
  | cons r items ih =>
    have hr := h r List.mem_cons_self
    have hrest := ih fun r hr => h r (List.mem_cons_of_mem _ hr)
    cases items with
    | nil =>
      rw [List.map_cons, List.map_nil, walkList, walkList, hr]
    | cons next items =>
      rw [List.map_cons] at hrest
      rw [List.map_cons, List.map_cons, walkList, walkList, hr]
      · simp only [hrest]
      · exact List.cons_ne_nil next items
      · exact List.cons_ne_nil next.plain (items.map Rule.plain)

theorem walkBranches_plain {branches : List Rule}
    (h : ∀ r ∈ branches, walk ofName onlyStart r.plain = walk ofName onlyStart r)
    (found : FirstSet) :
    walkBranches ofName onlyStart found (branches.map Rule.plain) =
      walkBranches ofName onlyStart found branches := by
  induction branches generalizing found with
  | nil => rfl
  | cons r branches ih =>
    have hrest := ih fun r hr => h r (List.mem_cons_of_mem _ hr)
    rw [List.map_cons, walkBranches, walkBranches, h r List.mem_cons_self]
    simp only [hrest]

/-- A definition starts with the same in plain notation. -/
theorem walk_plain (r : Rule) : walk ofName onlyStart r.plain = walk ofName onlyStart r := by
  induction r using Rule.induction_on_parts with
  | step r ih =>
    by_cases hannotated : ∃ value, r.shape = .annotated value
    · obtain ⟨value, hshape⟩ := hannotated
      rw [hshape] at ih
      rw [Rule.plain_of_annotated hshape, walk_eq ofName onlyStart r, hshape]
      exact ih value (List.mem_singleton_self value)
    · rw [walk_eq, walk_eq ofName onlyStart r,
        Rule.shape_plain fun value hshape => hannotated ⟨value, hshape⟩]
      cases hshape : r.shape <;> rw [hshape] at ih
      case sequence items => exact walkList_plain ih .empty
      case choice branches => exact walkBranches_plain ih .empty
      case optional part =>
        have hpart := ih part (List.mem_singleton_self part)
        simp only [Rule.Shape.mapParts, walkShape, hpart]
      case repeated part => exact ih part (List.mem_singleton_self part)
      case ahead part => exact ih part (List.mem_singleton_self part)
      case annotated value => exact (hannotated ⟨value, hshape⟩).elim
      all_goals rfl

theorem walkName_plain (c : Compiler) (onlyStart : Bool) (fuel : Nat) :
    walkName c.plain.leadContext onlyStart fuel = walkName c.leadContext onlyStart fuel := by
  induction fuel with
  | zero => rfl
  | succ fuel ih =>
    funext name state
    have hlookup : c.plain.leadContext.grammar.lookup name =
        (c.leadContext.grammar.lookup name).map Rule.plain := c.lookup_plain name
    rw [walkName, walkName, hlookup, ih]
    cases c.leadContext.grammar.lookup name with
    | none => rfl
    | some definition =>
      dsimp only [Option.map_some]
      rw [walk_plain]
      rfl

theorem ofRule_plain (c : Compiler) (r : Rule) (onlyStart : Bool) :
    ofRule c.plain.leadContext r.plain onlyStart = ofRule c.leadContext r onlyStart := by
  have hfuel : fuelFor c.plain.leadContext = fuelFor c.leadContext :=
    congrArg (· + 1) (List.length_map _)
  rw [ofRule, ofRule, hfuel, walkName_plain, walk_plain]

end Lead

/-! ### Sessions -/

/-- Sessions with the same rules, first sets and literals. -/
structure Session.Alike (s t : Session) : Prop where
  table : s.table = t.table
  leads : s.leads = t.leads
  literals : s.literals = t.literals

namespace Compiling

variable {α β : Type}

/-- Wherever the one step goes on, the other one does too, with the same value, and the sessions stay
alike. -/
def Follows (other step : Compiling α) : Prop :=
  ∀ s t a u, s.Alike t → step.result s = (.ok a, u) →
    ∃ v, other.result t = (.ok a, v) ∧ u.Alike v

theorem follows_pure (a : α) : Follows (pure a) (pure a) := by
  intro s t b u halike h
  obtain ⟨rfl, rfl⟩ := result_pure_eq_ok.1 h
  exact ⟨t, rfl, halike⟩

theorem follows_fail (other : Compiling α) (error : String → CompileError) :
    Follows other (fail error) := by
  intro s t a u _ h
  cases h

theorem follows_note (detail : String) : Follows (note detail) (note detail) := by
  intro s t a u halike h
  cases h
  exact ⟨_, rfl, ⟨halike.table, halike.leads, halike.literals⟩⟩

theorem Follows.bind {other step : Compiling α} {otherNext next : α → Compiling β}
    (h : Follows other step) (hnext : ∀ a, Follows (otherNext a) (next a)) :
    Follows (other >>= otherNext) (step >>= next) := by
  intro s t b u halike hresult
  obtain ⟨a, mid, hstep, hresult⟩ := result_bind_eq_ok.1 hresult
  obtain ⟨otherMid, hother, hmid⟩ := h s t a mid halike hstep
  obtain ⟨v, hotherNext, hv⟩ := hnext a mid otherMid b u hmid hresult
  exact ⟨v, result_bind_eq_ok.2 ⟨a, otherMid, hother, hotherNext⟩, hv⟩

theorem Follows.behind {other step : Compiling α} {m : Compiling Unit} (h : Follows other step)
    (hm : Passive m) : Follows other (do m; step) := by
  intro s t a u halike hresult
  obtain ⟨⟨⟩, mid, hmid, hresult⟩ := result_bind_eq_ok.1 hresult
  obtain ⟨htable, hleads, hliterals⟩ := hm.unchanged hmid
  exact h mid t a u ⟨htable.trans halike.table, hleads.trans halike.leads,
    hliterals.trans halike.literals⟩ hresult

theorem follows_literal (text : String) : Follows (literal text) (literal text) := by
  rw [literal]
  split
  · exact follows_fail _ _
  · exact follows_pure _

theorem introduction_eq {r : Rule} (hannotated : ∀ value, r.shape ≠ .annotated value)
    (hwrong : ∀ error, r.shape ≠ .wrong error) :
    introduction r = pure () ∨ ∃ detail, introduction r = note detail := by
  rw [introduction.eq_def]
  split
  · rename_i key value
    split
    · rename_i keyword hkey
      have hchecks : checks value keyword = pure () := by
        have hlabelled : Rule.shapeOf value keyword ≠ Rule.shapeOf.labelled value keyword := by
          intro hshape
          rw [Rule.shape_combinator hkey, hshape] at hannotated hwrong
          rcases Rule.shapeOf.labelled_cases value keyword with ⟨inner, h⟩ | ⟨error, h⟩
          · exact hannotated inner h
          · exact hwrong error h
        cases keyword
        case astNode | astProp => exact (hlabelled rfl).elim
        all_goals rfl
      rw [hchecks]
      exact .inr ⟨_, bind_pure _⟩
    · exact .inl rfl
  · exact .inl rfl

theorem Follows.introduced {other step : Compiling α} (h : Follows other step) {r : Rule}
    (hannotated : ∀ value, r.shape ≠ .annotated value) (hwrong : ∀ error, r.shape ≠ .wrong error) :
    Follows (do introduction r; other) step := by
  rcases introduction_eq hannotated hwrong with hpure | ⟨detail, hnote⟩
  · rw [hpure, pure_bind]
    exact h
  · rw [hnote]
    intro s t a u halike hresult
    exact h s _ a u ⟨halike.table, halike.leads, halike.literals⟩ hresult

variable {c : Compiler} {plain written : Rule → String → Compiling Parser}

theorem follows_undefined (c : Compiler) (text : String) :
    Follows (undefined c.plain text) (undefined c text) := by
  have hbare : c.plain.config = c.config := rfl
  rw [undefined, undefined, hbare]
  split
  · exact follows_pure _
  split
  · exact follows_pure _
  split
  · exact (follows_note _).bind fun _ => follows_literal text
  · exact follows_fail _ _

theorem follows_reference
    (hofRule : ∀ (definition : Rule) name, Follows (plain definition.plain name) (written definition name))
    (name : String) : Follows (reference c.plain plain name) (reference c written name) := by
  rw [reference_eq, reference_eq, c.lookup_plain]
  have hoverrides : c.plain.overrides = c.overrides := rfl
  rw [hoverrides]
  cases c.overrides.lookup name with
  | some replacement => exact (follows_note _).bind fun _ => follows_pure replacement
  | none =>
    cases c.grammar.lookup name with
    | some definition => exact hofRule definition name
    | none => exact follows_undefined c name

theorem follows_branchLiterals (c : Compiler) (r : Rule) :
    Follows (branchLiterals c.plain r.plain) (branchLiterals c r) := by
  intro s t a u halike h
  have hprune : c.plain.config = c.config := rfl
  rw [result_branchLiterals] at h ⊢
  rw [hprune, Lead.ofRule_plain, ← halike.leads, ← halike.literals]
  dsimp only at h ⊢
  split at h
  · rename_i hon
    rw [if_pos hon]
    split at h
    · rename_i hprunable
      rw [if_pos hprunable]
      cases h
      exact ⟨_, rfl, ⟨halike.table, rfl, rfl⟩⟩
    · rename_i hprunable
      rw [if_neg hprunable]
      cases h
      exact ⟨_, rfl, ⟨halike.table, rfl, rfl⟩⟩
  · rename_i hoff
    rw [if_neg hoff]
    cases h
    exact ⟨t, rfl, halike⟩

theorem follows_bodies {rules : List Rule}
    (hrules : ∀ r ∈ rules, Follows (body c.plain plain r.plain) (body c written r)) :
    Follows (bodies c.plain plain (rules.map Rule.plain)) (bodies c written rules) := by
  induction rules with
  | nil =>
    rw [List.map_nil, bodies_nil, bodies_nil]
    exact follows_pure []
  | cons r rules ih =>
    rw [List.map_cons, bodies_cons, bodies_cons]
    have hrest := ih fun r hr => hrules r (List.mem_cons_of_mem _ hr)
    exact (hrules r List.mem_cons_self).bind fun q => hrest.bind fun qs => follows_pure (q :: qs)

theorem follows_branches {rules : List Rule}
    (hrules : ∀ r ∈ rules, Follows (body c.plain plain r.plain) (body c written r)) :
    Follows (branches c.plain plain (rules.map Rule.plain)) (branches c written rules) := by
  induction rules with
  | nil =>
    rw [List.map_nil, branches_nil, branches_nil]
    exact follows_pure []
  | cons r rules ih =>
    rw [List.map_cons, branches_cons, branches_cons]
    have hrest := ih fun r hr => hrules r (List.mem_cons_of_mem _ hr)
    exact (hrules r List.mem_cons_self).bind fun q => (follows_branchLiterals c r).bind fun first =>
      hrest.bind fun qs => follows_pure ((first, q) :: qs)

theorem follows_layer
    (hofRule : ∀ (definition : Rule) name, Follows (plain definition.plain name) (written definition name))
    {shape : Rule.Shape} (hparts : ∀ part ∈ shape.parts,
      Follows (body c.plain plain part.plain) (body c written part)) :
    Follows (layer c.plain plain (shape.mapParts Rule.plain)) (layer c written shape) := by
  have hpart : ∀ part, shape.parts = [part] →
      Follows (body c.plain plain part.plain) (body c written part) :=
    fun part heq => hparts part (heq ▸ List.mem_singleton_self part)
  cases shape with
  | reference name => exact follows_reference hofRule name
  | sequence items => exact (follows_bodies hparts).bind fun qs => follows_pure (Parser.sequence qs)
  | choice rules => exact (follows_branches hparts).bind fun qs => follows_pure (Parser.choice qs)
  | repeated part => exact (hpart part rfl).bind fun q => follows_pure (Parser.repeated q)
  | ahead part => exact (hpart part rfl).bind fun q => follows_pure (Parser.ahead q)
  | notAhead part => exact (hpart part rfl).bind fun q => follows_pure (Parser.notAhead q)
  | optional part => exact (hpart part rfl).bind fun q => follows_pure (Parser.optional q)
  | annotated value => exact hpart value rfl
  | literal text => exact follows_literal text
  | regex source =>
    dsimp only [Rule.Shape.mapParts, layer]
    cases Parser.ofPattern? source with
    | none => exact follows_fail _ _
    | some parser => exact follows_pure parser
  | eof => exact follows_pure Parser.eof
  | indent => exact follows_pure Parser.indent
  | script source =>
    have hscripts : c.plain.scripts = c.scripts := rfl
    dsimp only [Rule.Shape.mapParts, layer]
    rw [hscripts]
    cases c.scripts.compile source with
    | error reason => exact follows_fail _ _
    | ok handle => exact follows_pure (Parser.script source handle)
  | wrong error => exact follows_fail _ error

/-- What a definition compiles to, its plain notation does too. -/
theorem follows_body
    (hofRule : ∀ (definition : Rule) name, Follows (plain definition.plain name) (written definition name))
    (r : Rule) : Follows (body c.plain plain r.plain) (body c written r) := by
  induction r using Rule.induction_on_parts with
  | step r ih =>
    rw [body_eq c written r]
    refine Follows.behind ?_ (passive_introduction r)
    by_cases hannotated : ∃ value, r.shape = .annotated value
    · obtain ⟨value, hshape⟩ := hannotated
      rw [Rule.plain_of_annotated hshape, hshape]
      rw [hshape] at ih
      exact ih value (List.mem_singleton_self value)
    by_cases hwrong : ∃ error, r.shape = .wrong error
    · obtain ⟨error, hshape⟩ := hwrong
      rw [hshape]
      exact follows_fail _ error
    · have hplain := Rule.shape_plain fun value h => hannotated ⟨value, h⟩
      rw [body_eq c.plain plain, hplain]
      refine (follows_layer hofRule ih).introduced (fun value h => ?_) fun error h => ?_
      · exact hannotated (Rule.Shape.eq_annotated_of_mapParts (hplain.symm.trans h))
      · exact hwrong ⟨error, Rule.Shape.eq_wrong_of_mapParts (hplain.symm.trans h)⟩

theorem follows_named {other step : Compiling Parser} (h : Follows other step) (name : String) :
    Follows (named name other) (named name step) := by
  intro s t id u halike hresult
  rw [result_named] at hresult ⊢
  rw [← halike.table]
  cases hid : s.table.id? name with
  | some found =>
    rw [hid] at hresult
    cases hresult
    exact ⟨t, rfl, halike⟩
  | none =>
    rw [hid] at hresult
    dsimp only at hresult ⊢
    have hentering : (s.entering name).Alike (t.entering name) :=
      ⟨congrArg (fun table => RuleTable.mk (table.rules ++ [(name, none)])) halike.table,
        halike.leads, halike.literals⟩
    rcases hstep : step.result (s.entering name) with ⟨e | q, mid⟩
    · rw [hstep] at hresult
      cases hresult
    · rw [hstep] at hresult
      obtain ⟨otherMid, hother, hmid⟩ := h _ _ q mid hentering hstep
      cases hresult
      rw [hother]
      exact ⟨_, rfl, ⟨congrArg (·.define s.table.size q) hmid.table, hmid.leads, hmid.literals⟩⟩

theorem follows_rule (c : Compiler) (fuel : Nat) (definition : Rule) (name : String) :
    Follows (rule c.plain fuel definition.plain name) (rule c fuel definition name) := by
  induction fuel generalizing definition name with
  | zero => exact follows_fail _ _
  | succ fuel ih =>
    have hbody := follows_body (c := c) ih definition
    rw [rule, rule]
    split
    · exact hbody
    · exact (follows_named hbody name).bind fun id => follows_pure (Parser.rule id)

end Compiling

/-- What a grammar compiles to, it compiles to in plain notation, but for the fingerprint. -/
theorem Compiler.compile_plain_eq_ok {c : Compiler} {start : String} {p : Program}
    (h : (c.compile start).1 = .ok p) :
    (c.plain.compile start).1 = .ok { p with fingerprint := c.plain.fingerprint } := by
  obtain ⟨definition, parser, session, rules, hdefinition, hresult, hid, hrules, hprogram⟩ :=
    exists_session_of_compile h
  have hfuel : Compiling.fuelFor c.plain = Compiling.fuelFor c := by
    rw [Compiling.fuelFor, plain, List.length_map]
    rfl
  obtain ⟨other, hother, halike⟩ := Compiling.follows_rule c (Compiling.fuelFor c) definition start
    .start .start parser session ⟨rfl, rfl, rfl⟩ hresult
  have hplain : Session.start.compileRule c.plain definition.plain start = (.ok parser, other) := by
    rw [Session.compileRule, hfuel]
    exact hother
  rw [compile, lookup_plain, hdefinition]
  dsimp only [Option.map_some]
  rw [hplain]
  dsimp only
  rw [← halike.table, hid, ← halike.literals]
  dsimp only
  rw [hrules]
  dsimp only
  rw [hprogram]
  rfl

end PegGrammar
