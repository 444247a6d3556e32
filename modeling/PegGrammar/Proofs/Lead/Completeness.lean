import PegGrammar.Proofs.Lead.Derivation

/-!
# First sets are complete

A walk finds whatever a definition can start with. With names being expanded around it, it may miss a lead,
but only one that one of these names starts with as well, in a derivation that is no deeper, and then it has
noted the place of that name. The walk through the name itself misses nothing for this reason: of what was
missed inside of it there would be a derivation that is less deep. So a set that depends on no name
further out is complete, and those are the ones that are kept. That a match may be empty is never missed.
-/

namespace PegGrammar.Lead

variable {context : LeadContext}

/-- A name at a place, or one further out, was met while it was being expanded. -/
def Noted (lowest : Option Nat) (place : Nat) : Prop := ∃ n, lowest = some n ∧ n ≤ place

theorem noted_lower {a b : Option Nat} {place : Nat} :
    Noted (lower a b) place ↔ Noted a place ∨ Noted b place := by
  cases a with
  | none => simp [Noted, lower]
  | some a =>
    cases b with
    | none => simp [Noted, lower]
    | some b =>
      simp only [Noted, lower, Option.some.injEq, exists_eq_left']
      omega

/-- A lead that is left to a name being expanded: the name was noted, and starts with the lead in a
derivation that is no deeper. -/
def Deferred (context : LeadContext) (stack : List String) (lowest : Option Nat) (depth : Nat)
    (lead : Lead) : Prop :=
  ∃ place name, stack[place]? = some name ∧ Noted lowest place ∧
    Starts context depth (.text name) lead

theorem Deferred.mono {stack : List String} {lowest lowest' : Option Nat} {depth : Nat} {lead : Lead}
    (h : Deferred context stack lowest depth lead)
    (hnoted : ∀ place, Noted lowest place → Noted lowest' place) :
    Deferred context stack lowest' depth lead := by
  obtain ⟨place, name, hname, hplace, hstarts⟩ := h
  exact ⟨place, name, hname, hnoted place hplace, hstarts⟩

/-- A state that a walk can begin in: the names being expanded are defined and different from each other,
and the sets that are kept are complete. -/
structure Ready (context : LeadContext) (state : LeadState) : Prop where
  nodup : state.stack.Nodup
  defined : ∀ name ∈ state.stack, name ∈ context.grammar.map Prod.fst
  complete : ∀ name found, state.cache.lookup (name, true) = some found →
    ∀ depth lead, Starts context depth (.text name) lead → lead ∈ found.items

theorem Ready.congr {state state' : LeadState} (h : Ready context state)
    (hstack : state'.stack = state.stack) (hcache : state'.cache = state.cache) :
    Ready context state' := by
  obtain ⟨hnodup, hdefined, hcomplete⟩ := h
  refine ⟨?_, ?_, ?_⟩
  · rw [hstack]
    exact hnodup
  · rw [hstack]
    exact hdefined
  · rw [hcache]
    exact hcomplete

/-- After a walk the same names are being expanded, more may be noted, and the state is ready again. -/
structure Continues (context : LeadContext) (before after : LeadState) : Prop where
  stack : after.stack = before.stack
  noted : ∀ place, Noted before.lowestHit place → Noted after.lowestHit place
  ready : Ready context after

theorem Continues.trans {a b c : LeadState} (hab : Continues context a b)
    (hbc : Continues context b c) : Continues context a c :=
  ⟨hbc.stack.trans hab.stack, fun place h => hbc.noted place (hab.noted place h), hbc.ready⟩

theorem Continues.refl {state : LeadState} (h : Ready context state) :
    Continues context state state :=
  ⟨rfl, fun _ h => h, h⟩

/-- A set has what a definition starts with, but for what is left to names being expanded. -/
structure Covers (context : LeadContext) (stack : List String) (lowest : Option Nat) (r : Rule)
    (found : FirstSet) : Prop where
  nothing : ∀ depth, Starts context depth r .nothing → .nothing ∈ found.items
  lead : ∀ depth lead, Starts context depth r lead →
    lead ∈ found.items ∨ Deferred context stack lowest depth lead

/-- The result of a walk through a definition that began in a state: the state after it, and a set that
covers the definition. -/
structure Found (context : LeadContext) (state : LeadState) (r : Rule)
    (result : FirstSet × LeadState) : Prop where
  continues : Continues context state result.2
  covers : Covers context state.stack result.2.lowestHit r result.1

/-- A walk covers a definition from every ready state, if fuel is left for all names that can still be
expanded. -/
def Complete (context : LeadContext) (fuel : Nat) (w : Walk) (r : Rule) : Prop :=
  ∀ state, Ready context state → context.grammar.length < fuel + state.stack.length →
    Found context state r (w state)

/-! ### Sequences and alternatives -/

section

variable {ofName : String → Walk} {fuel : Nat}

/-- What the rest of a list adds to what was found before it. -/
structure CoversRest (context : LeadContext) (stack : List String) (lowest : Option Nat)
    (before : FirstSet) (rest : List Rule) (found : FirstSet) : Prop where
  before : ∀ lead ∈ before.items, lead ≠ .nothing → lead ∈ found.items
  nothing : ∀ depth, (∀ x ∈ rest, Starts context depth x .nothing) → .nothing ∈ found.items
  lead : ∀ depth lead front item back, rest = front ++ item :: back →
    (∀ x ∈ front, Starts context depth x .nothing) → Starts context depth item lead →
    lead ≠ .nothing → lead ∈ found.items ∨ Deferred context stack lowest depth lead

private theorem mem_pass {before s : FirstSet} {lead : Lead} :
    lead ∈ ((before.erase .nothing).union s).items ↔
      (lead ∈ before.items ∧ lead ≠ .nothing) ∨ lead ∈ s.items := by
  rw [SortedSet.mem_union, SortedSet.mem_erase]

/-- What an item adds to what was found before it. -/
private structure CoversItem (context : LeadContext) (stack : List String) (lowest : Option Nat)
    (before : FirstSet) (x : Rule) (found : FirstSet) : Prop where
  before : ∀ lead ∈ before.items, lead ≠ .nothing → lead ∈ found.items
  nothing : ∀ depth, Starts context depth x .nothing → .nothing ∈ found.items
  lead : ∀ depth lead, Starts context depth x lead →
    lead ∈ found.items ∨ Deferred context stack lowest depth lead

private theorem Covers.toItem {stack : List String} {lowest : Option Nat} {x : Rule} {s : FirstSet}
    (h : Covers context stack lowest x s) (before : FirstSet) :
    CoversItem context stack lowest before x ((before.erase .nothing).union s) where
  before _ hlead hne := mem_pass.2 (.inl ⟨hlead, hne⟩)
  nothing depth hstarts := mem_pass.2 (.inr (h.nothing depth hstarts))
  lead depth lead hstarts := (h.lead depth lead hstarts).imp_left fun hlead => mem_pass.2 (.inr hlead)

section

variable {stack : List String} {lowest lowest' : Option Nat} {before passed found : FirstSet} {x : Rule}
  {rest : List Rule}

private theorem CoversItem.last (h : CoversItem context stack lowest before x passed) :
    CoversRest context stack lowest before [x] passed := by
  refine ⟨h.before, fun depth hempty => h.nothing depth (hempty x List.mem_cons_self), ?_⟩
  intro depth lead front item back heq _ hlead _
  cases front with
  | nil =>
    cases heq
    exact h.lead depth lead hlead
  | cons y front => cases front <;> cases heq

private theorem CoversItem.stops (h : CoversItem context stack lowest before x passed)
    (hempty : .nothing ∉ passed.items) : CoversRest context stack lowest before (x :: rest) passed := by
  have hne : ∀ depth, ¬ Starts context depth x .nothing :=
    fun depth hstarts => hempty (h.nothing depth hstarts)
  refine ⟨h.before, fun depth hrest => (hne depth (hrest x List.mem_cons_self)).elim, ?_⟩
  intro depth lead front item back heq hfront hlead _
  cases front with
  | nil =>
    cases heq
    exact h.lead depth lead hlead
  | cons z front =>
    obtain ⟨rfl, -⟩ := List.cons.inj heq
    exact (hne depth (hfront x List.mem_cons_self)).elim

private theorem CoversItem.goesOn (h : CoversItem context stack lowest before x passed)
    (hnoted : ∀ place, Noted lowest place → Noted lowest' place)
    (hrest : CoversRest context stack lowest' passed rest found) :
    CoversRest context stack lowest' before (x :: rest) found := by
  refine ⟨fun lead hlead hne => hrest.before lead (h.before lead hlead hne) hne, fun depth hempty =>
    hrest.nothing depth (fun z hz => hempty z (List.mem_cons_of_mem _ hz)), ?_⟩
  intro depth lead front item back heq hfront hlead hne
  cases front with
  | nil =>
    cases heq
    rcases h.lead depth lead hlead with hmem | hdeferred
    · exact .inl (hrest.before lead hmem hne)
    · exact .inr (hdeferred.mono hnoted)
  | cons z front =>
    obtain ⟨-, htail⟩ := List.cons.inj heq
    exact hrest.lead depth lead front item back htail
      (fun w hw => hfront w (List.mem_cons_of_mem _ hw)) hlead hne

end

theorem complete_walkList {items : List Rule}
    (hitems : ∀ x ∈ items, Complete context fuel (walk ofName true x) x) (before : FirstSet)
    {state : LeadState} (hready : Ready context state)
    (hfuel : context.grammar.length < fuel + state.stack.length) :
    Continues context state (walkList ofName true before items state).2 ∧
      CoversRest context state.stack (walkList ofName true before items state).2.lowestHit before items
        (walkList ofName true before items state).1 := by
  induction items generalizing before state with
  | nil =>
    rw [walkList.eq_def]
    refine ⟨.refl hready, fun lead hlead _ => ?_, fun depth _ => ?_, ?_⟩
    · exact SortedSet.mem_insert.2 (.inr hlead)
    · exact SortedSet.mem_insert.2 (.inl rfl)
    · intro depth lead front item back heq
      cases front <;> cases heq
  | cons x rest ih =>
    obtain ⟨hcontinues, hcovers⟩ := hitems x List.mem_cons_self state hready hfuel
    rcases hwalk : walk ofName true x state with ⟨s, mid⟩
    rw [hwalk] at hcontinues hcovers
    have hitem := Covers.toItem hcovers before
    cases rest with
    | nil =>
      rw [walkList.eq_def]
      dsimp only
      rw [hwalk]
      exact ⟨hcontinues, hitem.last⟩
    | cons y ys =>
      rw [walkList.eq_def]
      dsimp only
      rw [hwalk]
      dsimp only
      rw [Bool.true_and]
      by_cases hempty : ((before.erase .nothing).union s).contains .nothing = true
      · rw [hempty]
        have hmid : context.grammar.length < fuel + mid.stack.length := hcontinues.stack ▸ hfuel
        obtain ⟨hgoesOn, hrest⟩ := ih (fun z hz => hitems z (List.mem_cons_of_mem _ hz))
          ((before.erase .nothing).union s) hcontinues.ready hmid
        rw [hcontinues.stack] at hrest
        exact ⟨hcontinues.trans hgoesOn, hitem.goesOn hgoesOn.noted hrest⟩
      · rw [Bool.eq_false_iff.2 hempty]
        exact ⟨hcontinues, hitem.stops fun hmem => hempty (SortedSet.contains_iff.2 hmem)⟩

theorem complete_walkBranches {branches : List Rule}
    (hbranches : ∀ x ∈ branches, Complete context fuel (walk ofName true x) x) (before : FirstSet)
    {state : LeadState} (hready : Ready context state)
    (hfuel : context.grammar.length < fuel + state.stack.length) :
    Continues context state (walkBranches ofName true before branches state).2 ∧
      (∀ lead ∈ before.items, lead ∈ (walkBranches ofName true before branches state).1.items) ∧
      ∀ x ∈ branches, Covers context state.stack
        (walkBranches ofName true before branches state).2.lowestHit x
        (walkBranches ofName true before branches state).1 := by
  induction branches generalizing before state with
  | nil =>
    rw [walkBranches.eq_def]
    exact ⟨.refl hready, fun lead hlead => hlead, fun x hx => by cases hx⟩
  | cons x rest ih =>
    obtain ⟨hcontinues, hcovers⟩ := hbranches x List.mem_cons_self state hready hfuel
    rw [walkBranches.eq_def]
    dsimp only
    rcases hwalk : walk ofName true x state with ⟨s, mid⟩
    rw [hwalk] at hcontinues hcovers
    dsimp only at hcontinues hcovers ⊢
    obtain ⟨hrest, hbefore, hcoversRest⟩ :=
      ih (fun x hx => hbranches x (List.mem_cons_of_mem _ hx)) (before.union s) hcontinues.ready
        (by rw [hcontinues.stack]; exact hfuel)
    rw [hcontinues.stack] at hcoversRest
    refine ⟨hcontinues.trans hrest, fun lead hlead => ?_, fun y hy => ?_⟩
    · exact hbefore lead (SortedSet.mem_union.2 (.inl hlead))
    · rcases List.mem_cons.1 hy with rfl | hy
      · refine ⟨fun depth h => ?_, fun depth lead h => ?_⟩
        · exact hbefore _ (SortedSet.mem_union.2 (.inr (hcovers.nothing depth h)))
        · rcases hcovers.lead depth lead h with hlead | hdeferred
          · exact .inl (hbefore _ (SortedSet.mem_union.2 (.inr hlead)))
          · exact .inr (hdeferred.mono hrest.noted)
      · exact hcoversRest y hy

/-- Apart from names and lists, a definition starts with what its shape does and its alternatives do. -/
theorem covers_of_alternatives {stack : List String} {lowest : Option Nat} {r : Rule}
    {found : FirstSet} (hname : ∀ name, r.shape ≠ .reference name)
    (hlist : ∀ items, r.shape ≠ .sequence items)
    (hshape : ∀ lead ∈ (ofShape r.shape).items, lead ∈ found.items)
    (hparts : ∀ part ∈ alternatives r.shape, Covers context stack lowest part found) :
    Covers context stack lowest r found := by
  have hcases : ∀ {depth lead}, Starts context depth r lead →
      lead ∈ found.items ∨ ∃ part ∈ alternatives r.shape, Starts context depth part lead := by
    intro depth lead h
    cases h with
    | hidden => exact (hname _ rfl).elim
    | named => exact (hname _ rfl).elim
    | undefined => exact (hname _ rfl).elim
    | leaf hlead => exact .inl (hshape lead hlead)
    | alternative hpart hstarts => exact .inr ⟨_, hpart, hstarts⟩
    | item hsequence => exact (hlist _ hsequence).elim
    | empty hsequence => exact (hlist _ hsequence).elim
  constructor
  · intro depth h
    rcases hcases h with hmem | ⟨part, hpart, hstarts⟩
    · exact hmem
    · exact (hparts part hpart).nothing depth hstarts
  · intro depth lead h
    rcases hcases h with hmem | ⟨part, hpart, hstarts⟩
    · exact .inl hmem
    · exact (hparts part hpart).lead depth lead hstarts

theorem covers_of_list {stack : List String} {lowest : Option Nat} {r : Rule} {items : List Rule}
    {before found : FirstSet} (hshape : r.shape = .sequence items)
    (h : CoversRest context stack lowest before items found) :
    Covers context stack lowest r found := by
  have hcases : ∀ {depth lead}, Starts context depth r lead →
      (lead = .nothing ∧ ∀ x ∈ items, Starts context depth x .nothing) ∨
      ∃ front item back, items = front ++ item :: back ∧
        (∀ x ∈ front, Starts context depth x .nothing) ∧ Starts context depth item lead ∧
        lead ≠ .nothing := by
    intro depth lead hstarts
    cases hstarts with
    | hidden => cases hshape
    | named => cases hshape
    | undefined => cases hshape
    | leaf hlead =>
      rw [hshape] at hlead
      cases hlead
    | alternative hpart =>
      rw [hshape] at hpart
      cases hpart
    | item hsequence hfront hitem hne =>
      cases hshape.symm.trans hsequence
      exact .inr ⟨_, _, _, rfl, hfront, hitem, hne⟩
    | empty hsequence hempty =>
      cases hshape.symm.trans hsequence
      exact .inl ⟨rfl, hempty⟩
  constructor
  · intro depth hstarts
    rcases hcases hstarts with ⟨-, hempty⟩ | ⟨_, _, _, _, _, _, hne⟩
    · exact h.nothing depth hempty
    · exact (hne rfl).elim
  · intro depth lead hstarts
    rcases hcases hstarts with ⟨rfl, hempty⟩ | ⟨front, item, back, heq, hfront, hitem, hne⟩
    · exact .inl (h.nothing depth hempty)
    · exact h.lead depth lead front item back heq hfront hitem hne

/-- A walk by shape is complete if the walks through the parts and names of the shape are. -/
theorem complete_walkShape (hofName : ∀ name, Complete context fuel (ofName name) (.text name))
    {r : Rule} (hparts : ∀ part ∈ r.shape.parts, Complete context fuel (walk ofName true part) part) :
    Complete context fuel (walkShape ofName true r.shape) r := by
  rcases Classical.em (∃ name, r.shape = .reference name) with ⟨name, hname⟩ | hnone
  · rw [hname, Rule.eq_text_of_shape hname]
    exact hofName name
  have hname : ∀ name, r.shape ≠ .reference name := fun name h => hnone ⟨name, h⟩
  intro state hready hfuel
  by_cases hsequence : ∃ items, r.shape = .sequence items
  · obtain ⟨items, hshape⟩ := hsequence
    rw [hshape] at hparts
    obtain ⟨hcontinues, hrest⟩ := complete_walkList hparts .empty hready hfuel
    rw [hshape]
    exact ⟨hcontinues, covers_of_list hshape hrest⟩
  have hlist : ∀ items, r.shape ≠ .sequence items := fun items h => hsequence ⟨items, h⟩
  have leaf : walkShape ofName true r.shape = .pure (ofShape r.shape) → alternatives r.shape = [] →
      Found context state r (walkShape ofName true r.shape state) := by
    intro hwalk halternatives
    rw [hwalk]
    refine ⟨.refl hready, covers_of_alternatives hname hlist (fun _ hlead => hlead) ?_⟩
    rw [halternatives]
    exact fun part hpart => by cases hpart
  have unary : ∀ part, r.shape.parts = [part] → alternatives r.shape = [part] →
      (ofShape r.shape = .empty) →
      Found context state r (walk ofName true part state) := by
    intro part hpart halternatives hshape
    obtain ⟨hcontinues, hcovers⟩ :=
      hparts part (hpart ▸ List.mem_singleton_self part) state hready hfuel
    refine ⟨hcontinues, covers_of_alternatives hname hlist ?_ ?_⟩
    · rw [hshape]
      exact fun lead hlead => by cases hlead
    · rw [halternatives]
      intro other hother
      rw [List.mem_singleton.1 hother]
      exact hcovers
  cases hshape : r.shape with
  | reference name => exact (hname name hshape).elim
  | sequence items => exact (hlist items hshape).elim
  | choice branches =>
    rw [hshape] at hparts
    obtain ⟨hcontinues, -, hcovers⟩ := complete_walkBranches hparts .empty hready hfuel
    refine ⟨hcontinues, covers_of_alternatives hname hlist ?_ ?_⟩
    · rw [hshape]
      exact fun lead hlead => by cases hlead
    · rw [hshape]
      exact hcovers
  | repeated part | ahead part | annotated part =>
    rw [hshape] at unary
    exact unary part rfl rfl rfl
  | optional part =>
    rw [hshape] at hparts
    obtain ⟨hcontinues, hcovers⟩ := hparts part List.mem_cons_self state hready hfuel
    refine ⟨hcontinues, covers_of_alternatives hname hlist ?_ ?_⟩
    · rw [hshape]
      intro lead hlead
      exact SortedSet.mem_insert.2 (.inl (SortedSet.mem_single.1 hlead))
    · rw [hshape]
      intro other hother
      rw [List.mem_singleton.1 hother]
      refine ⟨fun depth h => SortedSet.mem_insert.2 (.inl rfl), fun depth lead h => ?_⟩
      exact (hcovers.lead depth lead h).imp_left fun hlead => SortedSet.mem_insert.2 (.inr hlead)
  | notAhead | literal | regex | eof | indent | script | wrong =>
    rw [hshape] at leaf
    exact leaf rfl rfl

/-- A walk is complete if the walks through names are. -/
theorem complete_walk (hofName : ∀ name, Complete context fuel (ofName name) (.text name))
    (r : Rule) : Complete context fuel (walk ofName true r) r := by
  induction r using Rule.induction_on_parts with
  | step r ih =>
    rw [walk_eq]
    exact complete_walkShape hofName ih

end

/-! ### Names -/

private theorem mem_keys_of_lookup {grammar : List (String × Rule)} {name : String}
    {definition : Rule} (h : grammar.lookup name = some definition) :
    name ∈ grammar.map Prod.fst :=
  List.mem_map_of_mem (mem_of_lookup h)

theorem Ready.length_le {state : LeadState} (h : Ready context state) :
    state.stack.length ≤ context.grammar.length := by
  have hle := h.nodup.length_le_of_subset (fun name hname => h.defined name hname)
  rwa [List.length_map] at hle

theorem Ready.expand {state : LeadState} (h : Ready context state) {name : String}
    {definition : Rule} (hlookup : context.grammar.lookup name = some definition)
    (hnew : name ∉ state.stack) :
    Ready context { state with stack := state.stack ++ [name], lowestHit := none } := by
  have hnodup := List.nodup_cons.2 ⟨hnew, h.nodup⟩
  refine ⟨(List.perm_append_singleton name state.stack).nodup_iff.2 hnodup, fun other hother => ?_,
    h.complete⟩
  rcases List.mem_append.1 hother with hother | hother
  · exact h.defined other hother
  · rw [List.mem_singleton.1 hother]
    exact mem_keys_of_lookup hlookup

/-- What the walk through a definition misses while its name is being expanded is left to a name further
out: what is left to the name itself has a less deep derivation, which misses less. -/
theorem covers_name {stack : List String} {lowest : Option Nat} {name : String} {definition : Rule}
    {found : FirstSet} (hname : name ∉ context.hidden)
    (hlookup : context.grammar.lookup name = some definition)
    (h : Covers context (stack ++ [name]) lowest definition found) :
    Covers context stack lowest (.text name) found := by
  constructor
  · intro depth hstarts
    obtain ⟨less, -, hless⟩ := hstarts.of_name hname hlookup
    exact h.nothing less hless
  · intro depth lead hstarts
    induction depth with
    | zero =>
      obtain ⟨less, heq, -⟩ := hstarts.of_name hname hlookup
      cases heq
    | succ depth ih =>
      obtain ⟨less, heq, hless⟩ := hstarts.of_name hname hlookup
      cases heq
      rcases h.lead depth lead hless with hmem | ⟨place, other, hother, hnoted, hdeferred⟩
      · exact .inl hmem
      by_cases hplace : place < stack.length
      · rw [List.getElem?_append_left hplace] at hother
        exact .inr ⟨place, other, hother, hnoted, hdeferred.mono (Nat.le_succ depth)⟩
      · rw [List.getElem?_append_right (Nat.le_of_not_lt hplace)] at hother
        have hself : other = name := by
          obtain ⟨hlt, hget⟩ := List.getElem?_eq_some_iff.1 hother
          rw [← hget, List.getElem_singleton]
        rw [hself] at hdeferred
        rcases ih hdeferred with hmem | ⟨place, other, hother, hnoted, houter⟩
        · exact .inl hmem
        · exact .inr ⟨place, other, hother, hnoted, houter.mono (Nat.le_succ depth)⟩

private theorem found_at_once {state : LeadState} (hready : Ready context state) {r : Rule}
    {found : FirstSet} (h : ∀ depth lead, Starts context depth r lead → lead ∈ found.items) :
    Found context state r (found, state) :=
  ⟨.refl hready, fun depth hstarts => h depth _ hstarts,
    fun depth lead hstarts => .inl (h depth lead hstarts)⟩

private theorem found_hidden {state : LeadState} (hready : Ready context state) {name : String}
    (hname : name ∈ context.hidden) :
    Found context state (.text name) (.anything, state) := by
  refine found_at_once hready fun depth lead hstarts => ?_
  cases hstarts with
  | hidden => exact SortedSet.mem_single.2 rfl
  | named hnot => exact (hnot hname).elim
  | undefined hnot => exact (hnot hname).elim
  | leaf hlead => cases hlead
  | alternative hpart => cases hpart
  | item hshape => cases hshape
  | empty hshape => cases hshape

private theorem found_undefined {state : LeadState} (hready : Ready context state) {name : String}
    (hname : name ∉ context.hidden) (hlookup : context.grammar.lookup name = none) :
    Found context state (.text name) (ofUndefined context name, state) := by
  refine found_at_once hready fun depth lead hstarts => ?_
  cases hstarts with
  | hidden hhidden => exact (hname hhidden).elim
  | named _ hsome => cases hlookup.symm.trans hsome
  | undefined _ _ hlead => exact hlead
  | leaf hlead => cases hlead
  | alternative hpart => cases hpart
  | item hshape => cases hshape
  | empty hshape => cases hshape

private theorem found_expanding {state : LeadState} (hready : Ready context state) {name : String}
    {place : Nat} (hplace : state.stack[place]? = some name) :
    Found context state (.text name)
      (.nothing, { state with lowestHit := lower state.lowestHit (some place) }) := by
  refine ⟨⟨rfl, fun other hother => noted_lower.2 (.inl hother), hready.congr rfl rfl⟩,
    fun depth _ => SortedSet.mem_single.2 rfl, fun depth lead hstarts => .inr ?_⟩
  exact ⟨place, name, hplace, noted_lower.2 (.inr ⟨place, rfl, Nat.le_refl _⟩), hstarts⟩

/-- A name is expanded by a walk through its definition; the set is kept if it depends on nothing further
out. -/
private theorem found_expanded {state inner : LeadState} {name : String} {definition : Rule}
    {found : FirstSet} (hname : name ∉ context.hidden)
    (hlookup : context.grammar.lookup name = some definition) (hready : Ready context state)
    (hinner : Found context { state with stack := state.stack ++ [name], lowestHit := none }
      definition (found, inner)) :
    Found context state (.text name)
      (found, { stack := state.stack
                lowestHit := lower state.lowestHit inner.lowestHit
                cache := if inner.lowestHit.all (fun place => state.stack.length ≤ place) then
                    ((name, true), found) :: inner.cache
                  else inner.cache }) := by
  obtain ⟨hcontinues, hcovers⟩ := hinner
  have hwhole := covers_name hname hlookup hcovers
  refine ⟨⟨rfl, fun place hplace => noted_lower.2 (.inl hplace), hready.nodup, hready.defined, ?_⟩,
    hwhole.nothing, fun depth lead hstarts => ?_⟩
  · intro other kept hkept
    dsimp only at hkept
    split at hkept
    · rename_i hindependent
      rw [List.lookup_cons] at hkept
      split at hkept
      · rename_i heq
        cases hkept
        have hother : other = name := (Prod.mk.inj (eq_of_beq heq)).1
        intro depth lead hstarts
        rw [hother] at hstarts
        rcases hwhole.lead depth lead hstarts with hmem | ⟨place, _, hplace, ⟨n, hn, hle⟩, -⟩
        · exact hmem
        · have hlt := (List.getElem?_eq_some_iff.1 hplace).1
          dsimp only at hn
          rw [hn] at hindependent
          have hge : state.stack.length ≤ n := of_decide_eq_true hindependent
          omega
      · exact hcontinues.ready.complete other kept hkept
    · exact hcontinues.ready.complete other kept hkept
  · exact (hwhole.lead depth lead hstarts).imp_right fun hdeferred =>
      hdeferred.mono fun place hplace => noted_lower.2 (.inr hplace)

/-- A walk through a name is complete. -/
theorem complete_walkName (fuel : Nat) (name : String) :
    Complete context fuel (walkName context true fuel name) (.text name) := by
  induction fuel generalizing name with
  | zero =>
    intro state hready hfuel
    have := hready.length_le
    omega
  | succ fuel ih =>
    intro state hready hfuel
    rw [walkName]
    dsimp only
    split
    · rename_i hhidden
      exact found_hidden hready (List.contains_iff_mem.1 hhidden)
    rename_i hhidden
    have hname : name ∉ context.hidden := fun h => hhidden (List.contains_iff_mem.2 h)
    split
    · rename_i place hplace
      obtain ⟨hlt, heq, -⟩ := List.findIdx?_eq_some_iff_getElem.1 hplace
      refine found_expanding hready ?_
      rw [List.getElem?_eq_getElem hlt, of_decide_eq_true heq]
    rename_i hplace
    have hnew : name ∉ state.stack := fun hmem => by
      have hne := List.findIdx?_eq_none_iff.1 hplace name hmem
      simp at hne
    split
    · rename_i hlookup
      exact found_undefined hready hname hlookup
    rename_i definition hlookup
    split
    · rename_i found hcache
      exact found_at_once hready (hready.complete name found hcache)
    · exact found_expanded hname hlookup hready
        (complete_walk ih definition _ (hready.expand hlookup hnew)
          (by rw [List.length_append, List.length_singleton]; omega))

end PegGrammar.Lead
