import PegGrammar.Proofs.Compile.Faithful
import PegGrammar.Proofs.Finite.BitSet
import PegGrammar.Proofs.Lead.Completeness
import PegGrammar.Program.Basic

/-!
# What alternatives carry

An alternative that carries literals starts with one of them in every derivation, and they have their
numbers in the registry of the program. So where none of them stands in front of the cursor, nothing
can be derived that the alternative starts with there. First sets are shared by all alternatives of a
compilation; what is kept of them in between is complete.
-/

namespace PegGrammar

open Compiling

/-- Whatever a definition starts with is a literal whose number is in the set that is carried. -/
def Compiler.Guards (c : Compiler) (literals : Registry String) (r : Rule) (first : Option BitSet) :
    Prop :=
  ∀ set, first = some set → ∀ depth lead, Lead.Starts c.leadContext depth r lead →
    ∃ text id, lead = .literal text ∧ (id, text) ∈ literals.entries ∧ id ≠ 0 ∧
      set.containsId id = true

/-! ### Numbering -/

/-- What numbering literals one after the other makes of a set and a registry. -/
structure Compiling.Numbers (texts : List String) (before after : BitSet × Registry String) : Prop where
  sound : after.2.Sound
  registry : after.1.registry = before.1.registry
  identity : after.2.identity = before.2.identity
  members : ∀ id, before.1.containsId id = true → after.1.containsId id = true
  added : ∀ id, after.1.containsId id = true →
    before.1.containsId id = true ∨ ∃ text ∈ texts, (id, text) ∈ after.2.entries
  entries : before.2.entries ⊆ after.2.entries
  numbered : ∀ text ∈ texts, ∃ id, (id, text) ∈ after.2.entries ∧ id ≠ 0 ∧
    after.1.containsId id = true

theorem Compiling.numbers_numbered (texts : List String) {literals : Registry String} (h : literals.Sound) :
    Numbers texts (.empty literals.identity, literals) (numbered texts literals) := by
  rw [Compiling.numbered]
  generalize BitSet.empty literals.identity = set
  induction texts generalizing set literals with
  | nil =>
    exact ⟨h, rfl, rfl, fun _ hid => hid, fun _ hid => .inl hid, List.Subset.refl _, fun text htext => by cases htext⟩
  | cons text texts ih =>
    have hmem := literals.mem_getOrAdd text
    have hsound := h.getOrAdd text
    obtain ⟨hsound', hregistry, hidentity, hmembers, hadded, hentries, hnumbered⟩ :=
      ih hsound (set.addId (literals.getOrAdd text).1)
    have hne := Nat.pos_iff_ne_zero.1 (hsound.positive _ hmem)
    refine ⟨hsound', hregistry.trans (BitSet.registry_addId _ _),
      hidentity.trans (literals.identity_getOrAdd text), fun id hid => ?_, fun id hid => ?_, ?_,
      fun other hother => ?_⟩
    · exact hmembers id ((BitSet.containsId_addId id).2 (.inl hid))
    · rcases hadded id hid with hid | ⟨other, hother, hentry⟩
      · rcases (BitSet.containsId_addId id).1 hid with hid | ⟨rfl, -⟩
        · exact .inl hid
        · exact .inr ⟨text, List.mem_cons_self, hentries hmem⟩
      · exact .inr ⟨other, List.mem_cons_of_mem _ hother, hentry⟩
    · exact List.Subset.trans (h.entries_subset_getOrAdd text) hentries
    · rcases List.mem_cons.1 hother with rfl | hother
      · exact ⟨_, hentries hmem, hne, hmembers _ ((BitSet.containsId_addId _).2 (.inr ⟨rfl, hne⟩))⟩
      · exact hnumbered other hother

/-- A set of the numbers that some texts have in a registry. -/
structure BitSet.Denotes (set : BitSet) (literals : Registry String) (texts : List String) : Prop where
  members : ∀ id, set.containsId id = true → ∃ text ∈ texts, (id, text) ∈ literals.entries
  numbered : ∀ text ∈ texts, ∃ id, (id, text) ∈ literals.entries ∧ set.containsId id = true

theorem BitSet.Denotes.mono {set : BitSet} {literals larger : Registry String} {texts : List String}
    (h : set.Denotes literals texts) (hlarger : literals.entries ⊆ larger.entries) : set.Denotes larger texts := by
  refine ⟨fun id hid => ?_, fun text htext => ?_⟩
  · obtain ⟨text, htext, hentry⟩ := h.members id hid
    exact ⟨text, htext, hlarger hentry⟩
  · obtain ⟨id, hentry, hid⟩ := h.numbered text htext
    exact ⟨id, hlarger hentry, hid⟩

theorem Compiling.Numbers.denotes {texts : List String} {registry : Nat} {literals : Registry String}
    {after : BitSet × Registry String} (h : Numbers texts (.empty registry, literals) after) :
    after.1.Denotes after.2 texts := by
  refine ⟨fun id hid => ?_, fun text htext => ?_⟩
  · rcases h.added id hid with hid | hentry
    · rw [BitSet.containsId_empty] at hid
      cases hid
    · exact hentry
  · obtain ⟨id, hentry, -, hid⟩ := h.numbered text htext
    exact ⟨id, hentry, hid⟩

/-! ### The analysis of alternatives -/

theorem FirstSet.mem_literals {found : FirstSet} {text : String}
    (h : Lead.literal text ∈ found.items) : text ∈ found.literals :=
  List.mem_filterMap.2 ⟨_, h, rfl⟩

theorem FirstSet.exists_literal_of_isPrunable {found : FirstSet} (h : found.isPrunable = true)
    {lead : Lead} (hlead : lead ∈ found.items) : ∃ text, lead = .literal text := by
  rw [isPrunable, Bool.and_eq_true, Bool.and_eq_true, Bool.not_eq_true', Bool.not_eq_true'] at h
  obtain ⟨⟨-, hnothing⟩, hanything⟩ := h
  cases lead with
  | nothing =>
    rw [SortedSet.contains_iff.2 hlead] at hnothing
    cases hnothing
  | anything =>
    rw [SortedSet.contains_iff.2 hlead] at hanything
    cases hanything
  | literal text => exact ⟨text, rfl⟩

/-- From a ready state in which no name is being expanded, a walk finds everything. -/
theorem Lead.ofRule_complete {context : LeadContext} {state : LeadState}
    (hready : Lead.Ready context state) (hstack : state.stack = []) (r : Rule) :
    Lead.Ready context (Lead.ofRule context r true state).2 ∧
      (Lead.ofRule context r true state).2.stack = [] ∧
      ∀ depth lead, Lead.Starts context depth r lead →
        lead ∈ (Lead.ofRule context r true state).1.items := by
  have hfuel : context.grammar.length < Lead.fuelFor context + state.stack.length := by
    rw [Lead.fuelFor]
    omega
  obtain ⟨hcontinues, hcovers⟩ :=
    Lead.complete_walk (Lead.complete_walkName (Lead.fuelFor context)) r state hready hfuel
  refine ⟨hcontinues.ready, hcontinues.stack.trans hstack, fun depth lead hstarts => ?_⟩
  rcases hcovers.lead depth lead hstarts with hmem | ⟨place, _, hplace, -⟩
  · exact hmem
  · rw [hstack] at hplace
    cases hplace

/-- What one analysis leaves to the next: complete sets, and literals with numbers. -/
structure Compiler.Prepared (c : Compiler) (leads : LeadState) (literals : Registry String) : Prop where
  ready : Lead.Ready c.leadContext leads
  stack : leads.stack = []
  sound : literals.Sound

theorem Compiler.Prepared.branchLiterals {c : Compiler} {s t : Session} {r : Rule}
    {first : Option BitSet} (hs : c.Prepared s.leads s.literals)
    (h : (Compiling.branchLiterals c r).result s = (.ok first, t)) :
    c.Prepared t.leads t.literals ∧ c.Guards t.literals r first := by
  obtain ⟨hready, hstack, hsound⟩ := hs
  obtain ⟨hready', hstack', hcomplete⟩ := Lead.ofRule_complete hready hstack r
  rw [result_branchLiterals] at h
  dsimp only at h
  split at h
  · split at h
    · rename_i hprunable
      cases h
      have hnumbers := numbers_numbered (Lead.ofRule c.leadContext r true s.leads).1.literals hsound
      refine ⟨⟨hready', hstack', hnumbers.sound⟩, fun set hset depth lead hlead => ?_⟩
      cases hset
      obtain ⟨text, rfl⟩ := FirstSet.exists_literal_of_isPrunable hprunable (hcomplete depth lead hlead)
      obtain ⟨id, hid⟩ :=
        hnumbers.numbered text (FirstSet.mem_literals (hcomplete depth _ hlead))
      exact ⟨text, id, rfl, hid⟩
    · cases h
      exact ⟨⟨hready', hstack', hsound⟩, fun set hset => by cases hset⟩
  · cases h
    exact ⟨⟨hready, hstack, hsound⟩, fun set hset => by cases hset⟩

theorem Compiler.Analysed.prepared {c : Compiler} {leads : LeadState} {literals : Registry String}
    (h : c.Analysed leads literals) : c.Prepared leads literals := by
  induction h with
  | start =>
    refine ⟨⟨.nil, fun name hname => ?_, fun name found hfound => ?_⟩, rfl, Registry.sound_empty 0⟩
    · cases hname
    · cases hfound
  | next _ h ih => exact (ih.branchLiterals h).1

/-- What an alternative carries guards it. -/
theorem Compiler.Carries.guards {c : Compiler} {literals : Registry String} {r : Rule}
    {first : Option BitSet} (h : c.Carries literals r first) : c.Guards literals r first := by
  obtain ⟨s, t, hanalysed, hresult, hsubset⟩ := h
  have hguards := (hanalysed.prepared.branchLiterals hresult).2
  intro set hset depth lead hlead
  obtain ⟨text, id, heq, hentry, hid⟩ := hguards set hset depth lead hlead
  exact ⟨text, id, heq, hsubset hentry, hid⟩

/-! ### At a place in a text -/

theorem Program.containsId_literalsStarting_iff {p : Program} {id : Nat} {text : List Char} :
    (p.literalsStarting text).containsId id = true ↔
      ∃ literal, (id, literal) ∈ p.literals.entries ∧ id ≠ 0 ∧ literal.toList <+: text := by
  have hfold : ∀ (entries : List (Nat × String)) (set : BitSet),
      (entries.foldl (fun set entry =>
          if entry.2.toList.isPrefixOf text then set.addId entry.1 else set) set).containsId id = true ↔
        set.containsId id = true ∨ ∃ literal, (id, literal) ∈ entries ∧ id ≠ 0 ∧ literal.toList <+: text := by
    intro entries
    induction entries with
    | nil => simp
    | cons entry entries ih =>
      obtain ⟨other, literal⟩ := entry
      intro set
      rw [List.foldl_cons, ih]
      dsimp only
      split
      · rename_i hprefix
        have hprefix := List.isPrefixOf_iff_prefix.1 hprefix
        rw [BitSet.containsId_addId]
        grind
      · rename_i hprefix
        have hprefix : ¬ literal.toList <+: text := fun h => hprefix (List.isPrefixOf_iff_prefix.2 h)
        grind
  have hempty : (BitSet.empty p.literals.identity).containsId id = false := BitSet.containsId_empty _ id
  exact (hfold p.literals.entries (.empty _)).trans (or_iff_right (by simp [hempty]))

theorem Program.containsId_literalsStarting {p : Program} {id : Nat} {literal : String}
    {text : List Char} (hentry : (id, literal) ∈ p.literals.entries) (hid : id ≠ 0)
    (hstarts : literal.toList <+: text) : (p.literalsStarting text).containsId id = true :=
  containsId_literalsStarting_iff.2 ⟨literal, hentry, hid, hstarts⟩

/-- The numbers of some texts are met by those that stand at a place, just if one of the texts stands there. -/
theorem Program.overlaps_literalsStarting_iff {p : Program} (hsound : p.literals.Sound) {set : BitSet}
    {texts : List String} (h : set.Denotes p.literals texts) (text : List Char) :
    (p.literalsStarting text).overlaps set = true ↔ ∃ literal ∈ texts, literal.toList <+: text := by
  rw [BitSet.overlaps_iff]
  constructor
  · rintro ⟨id, hstarts, hid⟩
    obtain ⟨literal, hentry, -, hprefix⟩ := containsId_literalsStarting_iff.1 hstarts
    obtain ⟨other, hother, hentry'⟩ := h.members id hid
    exact ⟨literal, hsound.value_eq hentry' hentry ▸ hother, hprefix⟩
  · rintro ⟨literal, hliteral, hprefix⟩
    obtain ⟨id, hentry, hid⟩ := h.numbered literal hliteral
    have hne := Nat.pos_iff_ne_zero.1 (hsound.positive _ hentry)
    exact ⟨id, containsId_literalsStarting hentry hne hprefix, hid⟩

end PegGrammar
