import PegGrammar.Proofs.Compile.Pruning
import PegGrammar.Proofs.Compile.Table
import PegGrammar.Proofs.Program.Leading

/-!
# What is skipped would fail

An alternative that carries literals is skipped where none of them stands. It could not have matched
there: its definition starts with one of these literals in every derivation, and where a parser matches,
something stands that its definition starts with. The alternative is taken without what is carried inside of
it, so that nothing has to be known of pruning to see this.
-/

namespace PegGrammar

/-- A definition is an alternative somewhere in the grammar. -/
def Compiler.HasAlternative (c : Compiler) (r : Rule) : Prop :=
  ∃ node rules, c.Contains node ∧ node.shape = .choice rules ∧ r ∈ rules

theorem Compiler.HasAlternative.contains {c : Compiler} {r : Rule} (h : c.HasAlternative r) :
    c.Contains r := by
  obtain ⟨node, rules, hcontains, hshape, hr⟩ := h
  exact hcontains.part (hshape ▸ hr)

theorem Compiler.Renders.exists_alternative {c : Compiler} {names : List String}
    {lead : Rule → Option BitSet → Prop} {r : Rule} {q : Parser} (h : c.Renders names lead r q)
    (hcarry : ∀ entry ∈ c.overrides, entry.2.CarriesNothing) (hcontains : c.Contains r)
    {branches : List (Option BitSet × Parser)} (hwithin : Parser.Within (.choice branches) q)
    {set : BitSet} {branch : Parser} (hbranch : (some set, branch) ∈ branches) :
    ∃ rule, c.HasAlternative rule ∧ lead rule (some set) ∧ c.Renders names lead rule branch := by
  induction h with
  | replaced hlookup => cases hcarry _ (mem_of_lookup hlookup) branches hwithin _ hbranch
  | inlined hdefinition _ ih => exact ih (.definition (lookup_of_definition? hdefinition).2) hwithin
  | undefined _ _ hleaf =>
    rcases leaf_of_undefined? hleaf with rfl | rfl | rfl
    all_goals
      cases hwithin with
      | part hpart => cases hpart
  | @sequence r items qs hshape hlength _ ih =>
    cases hwithin with
    | part hpart hwithin =>
      obtain ⟨item, hpair⟩ := exists_mem_zip hlength hpart
      have hitem : item ∈ r.shape.parts := hshape ▸ (List.of_mem_zip hpair).1
      exact ih (item, _) hpair (hcontains.part hitem) hwithin
  | @choice r rules branches hshape hlength hfirst hrenders ih =>
    cases hwithin with
    | root =>
      obtain ⟨rule, hpair⟩ := exists_mem_zip hlength hbranch
      exact ⟨rule, ⟨r, rules, hcontains, hshape, (List.of_mem_zip hpair).1⟩, hfirst _ hpair,
        hrenders _ hpair⟩
    | part hpart hwithin =>
      obtain ⟨branch', hbranch', rfl⟩ := List.mem_map.1 hpart
      obtain ⟨rule, hpair⟩ := exists_mem_zip hlength hbranch'
      have hrule : rule ∈ r.shape.parts := hshape ▸ (List.of_mem_zip hpair).1
      exact ih (rule, branch') hpair (hcontains.part hrule) hwithin
  | repeated hshape _ ih | ahead hshape _ ih | notAhead hshape _ ih | optional hshape _ ih =>
    cases hwithin with
    | part hpart hwithin =>
      rw [List.mem_singleton.1 hpart] at hwithin
      exact ih (hcontains.part (hshape ▸ List.mem_cons_self)) hwithin
  | annotated hshape _ ih => exact ih (hcontains.part (hshape ▸ List.mem_cons_self)) hwithin
  | called | literal | regex | eof | indent | script =>
    cases hwithin with
    | part hpart => cases hpart

namespace Program

/-- An alternative that carries literals matches only where one of them stands, even if nothing is skipped
inside of it. -/
def GuardedBranch (p : Program) (call : Nat → Step) (branch : Option BitSet × Parser) : Prop :=
  ∀ set, branch.1 = some set → ∀ s tokens t, node p.bare call branch.2.bare s = (some tokens, t) →
    (p.literalsStarting s.cursor.remaining).overlaps set = true

/-- Every alternative in a parser matches only where what it carries stands. -/
def Guarded (p : Program) (call : Nat → Step) (q : Parser) : Prop :=
  ∀ branches, Parser.Within (.choice branches) q → ∀ branch ∈ branches, p.GuardedBranch call branch

variable {p : Program} {call : Nat → Step}

theorem overlaps_of_starts {c : Compiler} {r : Rule} {set : BitSet}
    (hguards : c.Guards p.literals r (some set)) {depth : Nat} {lead : Lead}
    (hstarts : Lead.Starts c.leadContext depth r lead) :
    ∃ text, lead = .literal text ∧ ∀ place : Place, text.toList <+: place.rest →
      (p.literalsStarting place.rest).overlaps set = true := by
  obtain ⟨text, id, rfl, hentry, hne, hset⟩ := hguards set rfl depth lead hstarts
  refine ⟨text, rfl, fun place hprefix => ?_⟩
  exact BitSet.overlaps_of_containsId (containsId_literalsStarting hentry hne hprefix) hset

/-- The parser of a definition is guarded, if the rules that it calls begin as their definitions do. -/
theorem guarded_of_renders {c : Compiler} (hcarry : ∀ entry ∈ c.overrides, entry.2.CarriesNothing)
    (hpatterns : c.PatternsLead) (hscripts : p.scripts.OnlyMoves) (hcall : ∀ id, Backtracks (call id))
    {names : List String}
    (hleads : ∀ id name definition, names[id]? = some name → c.grammar.lookup name = some definition →
      Leads c.leadContext (call id) definition)
    {r : Rule} {q : Parser} (hcontains : c.Contains r)
    (h : c.Renders names (c.Carries p.literals) r q) : p.Guarded call q := by
  rintro branches hwithin ⟨first, branch⟩ hbranch set hset s tokens t hresult
  cases (hset : first = some set)
  obtain ⟨rule, halternative, hcarries, hrenders⟩ :=
    h.exists_alternative hcarry hcontains hwithin hbranch
  obtain ⟨depth, lead, hstarts, hopens⟩ := leads_node (p := p.bare) hpatterns hscripts hcall hleads
    halternative.contains (hrenders.bare hcarry) s tokens t hresult
  obtain ⟨text, rfl, hoverlaps⟩ := overlaps_of_starts hcarries.guards hstarts
  exact hoverlaps _ hopens

theorem defines_bare {c : Compiler} (hcarry : ∀ entry ∈ c.overrides, entry.2.CarriesNothing)
    (hdefines : ∀ rule ∈ p.rules, c.Defines p.names (c.Carries p.literals) rule) :
    ∀ rule ∈ p.bare.rules, c.Defines p.bare.names (fun _ _ => True) rule := by
  have hnames : p.bare.names = p.names := List.map_map
  intro _ hrule
  obtain ⟨rule, hmem, rfl⟩ := List.mem_map.1 hrule
  obtain ⟨definition, hlookup, hrenders⟩ := hdefines rule hmem
  exact ⟨definition, hlookup, hnames ▸ hrenders.bare hcarry⟩

theorem leads_bare {c : Compiler} (hcarry : ∀ entry ∈ c.overrides, entry.2.CarriesNothing)
    (hpatterns : c.PatternsLead) (hmoves : p.scripts.OnlyMoves)
    (hdefines : ∀ rule ∈ p.rules, c.Defines p.names (c.Carries p.literals) rule) (room id : Nat)
    (name : String) (definition : Rule) (hname : p.names[id]? = some name)
    (hlookup : c.grammar.lookup name = some definition) :
    Leads c.leadContext (p.bare.callRule room id) definition := by
  have hnames : p.bare.names = p.names := List.map_map
  rw [← hnames] at hname
  exact leads_callRule (p := p.bare) hpatterns hmoves (defines_bare hcarry hdefines) room id name definition
    hname hlookup

theorem guarded_of_defines {c : Compiler} (hcarry : ∀ entry ∈ c.overrides, entry.2.CarriesNothing)
    (hpatterns : c.PatternsLead) (hmoves : p.scripts.OnlyMoves)
    (hdefines : ∀ rule ∈ p.rules, c.Defines p.names (c.Carries p.literals) rule) (room : Nat) :
    ∀ rule ∈ p.rules, p.Guarded (p.bare.callRule room) rule.body := by
  intro rule hrule
  obtain ⟨definition, hlookup, hrenders⟩ := hdefines rule hrule
  exact guarded_of_renders hcarry hpatterns hmoves (backtracks_callRule (p := p.bare) hmoves room)
    (leads_bare hcarry hpatterns hmoves hdefines room) (.definition hlookup) hrenders

/-- All rules of a program that was compiled are guarded. -/
theorem guarded_of_compile {c : Compiler} (hcarry : ∀ entry ∈ c.overrides, entry.2.CarriesNothing)
    (hpatterns : c.PatternsLead) (hscripts : c.scripts.OnlyMoves) {start : String}
    (hp : (c.compile start).1 = .ok p) (room : Nat) :
    ∀ rule ∈ p.rules, p.Guarded (p.bare.callRule room) rule.body := by
  have hengine := (Compiler.settings_of_compile hp).1
  exact guarded_of_defines hcarry hpatterns (hengine ▸ hscripts) (Compiler.defines_of_compile hp) room

end Program

end PegGrammar
