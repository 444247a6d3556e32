import PegGrammar.Proofs.Lead.Visits

/-!
# When earlier queries do not matter

The sets that are kept are meant to be those that depend on no name being expanded. They are: each was found
without meeting a name further out. But they are not always what would be found in their place, as a walk inside
of other names is cut short at those names, and a set that was kept before is not. So what is asked first decides
what the names of a circle start with.

That is the only way in which an earlier query matters. Where no two different names come to each other, nothing
is cut short but at the name that is being expanded, which happens wherever the name is met. So such a name has
one set, described here without a walk, and a walk finds it whatever is kept and whatever is expanded around it.
-/

namespace PegGrammar.Lead

section

variable {context : LeadContext} {onlyStart : Bool}

/-! ### What a name starts with -/

/-- What a definition starts with if it is known what names do. -/
def settle (f : String → FirstSet) (onlyStart : Bool) (r : Rule) : FirstSet :=
  (walk (fun name => .pure (f name)) onlyStart r .start).1

/-- What a name starts with: what its definition does, where it stands itself for nothing, and the other names
for what they start with. -/
inductive Means (context : LeadContext) (onlyStart : Bool) : String → FirstSet → Prop
  | hidden {name : String} : name ∈ context.hidden → Means context onlyStart name .anything
  | undefined {name : String} : name ∉ context.hidden → context.grammar.lookup name = none →
      Means context onlyStart name (ofUndefined context name)
  | defined {name : String} {definition : Rule} {f : String → FirstSet} : name ∉ context.hidden →
      context.grammar.lookup name = some definition → f name = .nothing →
      (∀ other, Visits context onlyStart (some name) definition other → other ≠ name →
        Means context onlyStart other (f other)) →
      Means context onlyStart name (settle f onlyStart definition)

theorem Means.mayBeEmpty {inside : Option String} {name : String} {found : FirstSet}
    (h : Means context onlyStart name found) (hstart : onlyStart = true) (hmem : .nothing ∈ found.items) :
    MayBeEmpty context inside (.text name) := by
  induction h generalizing inside with
  | hidden => cases SortedSet.mem_single.1 hmem
  | undefined hname hlookup => exact .undefined hname hlookup hmem
  | @defined name definition f hname hlookup _ _ ih =>
    have hself : Agree context onlyStart (some name) (fun _ _ => True) definition
        (walk (fun other => .pure (f other)) onlyStart definition)
        (walk (fun other => .pure (f other)) onlyStart definition) := by
      refine agree_walk fun other hother s s' _ => ⟨rfl, trivial, fun _ hempty => ?_⟩
      by_cases heq : other = name
      · subst heq
        exact .itself
      · exact ih other hother heq hempty
    exact .expanded hname hlookup ((hself .start .start trivial).empty hstart hmem)

theorem Means.nothing_mem {inside : Option String} {name : String} {found : FirstSet}
    (h : Means context true name found) (hempty : MayBeEmpty context inside (.text name))
    (hinside : inside ≠ some name) : .nothing ∈ found.items := by
  induction h generalizing inside with
  | hidden hhidden =>
    obtain heq | ⟨hname, -⟩ := hempty.of_text
    · exact (hinside heq).elim
    · exact (hname hhidden).elim
  | undefined hname hlookup =>
    obtain heq | ⟨-, ⟨_, hfound, -⟩ | ⟨-, hmem⟩⟩ := hempty.of_text
    · exact (hinside heq).elim
    · cases hlookup.symm.trans hfound
    · exact hmem
  | @defined name definition f hname hlookup hself hothers ih =>
    refine nothing_mem_walk (hempty.definition hlookup hinside) (fun other hvisits hother s => ?_) .start
    by_cases heq : other = name
    · rw [heq]
      exact hself ▸ SortedSet.mem_single.2 rfl
    · exact ih other hvisits heq hother fun h => heq (Option.some.inj h).symm

/-- That a name may be empty, outside of its own expansion, is what its set says. -/
theorem Means.nothing_mem_iff {name : String} {found : FirstSet} (h : Means context true name found) :
    .nothing ∈ found.items ↔ MayBeEmpty context none (.text name) :=
  ⟨h.mayBeEmpty rfl, fun hempty => h.nothing_mem hempty nofun⟩

/-- A name starts with one set. -/
theorem Means.unique {name : String} {found found' : FirstSet} (h : Means context onlyStart name found)
    (h' : Means context onlyStart name found') : found = found' := by
  induction h generalizing found' with
  | hidden hname =>
    cases h' with
    | hidden => rfl
    | undefined hnot => exact (hnot hname).elim
    | defined hnot => exact (hnot hname).elim
  | undefined hname hlookup =>
    cases h' with
    | hidden hhidden => exact (hname hhidden).elim
    | undefined => rfl
    | defined _ hfound => cases hlookup.symm.trans hfound
  | @defined name definition f hname hlookup hself hothers ih =>
    cases h' with
    | hidden hhidden => exact (hname hhidden).elim
    | undefined _ hnone => cases hlookup.symm.trans hnone
    | @defined _ _ g _ hlookup' hself' hothers' =>
      cases hlookup.symm.trans hlookup'
      have hagree : Agree context onlyStart (some name) (fun _ _ => True) definition
          (walk (fun other => .pure (f other)) onlyStart definition)
          (walk (fun other => .pure (g other)) onlyStart definition) := by
        refine agree_walk fun other hother s s' _ => ?_
        by_cases heq : other = name
        · subst heq
          exact ⟨hself.trans hself'.symm, trivial, fun _ _ => .itself⟩
        · exact ⟨ih other hother heq (hothers' other hother heq), trivial,
            (hothers other hother heq).mayBeEmpty⟩
      exact (hagree .start .start trivial).found

/-! ### What is kept -/

/-- Names can be expanded inside of each other if they are defined and different. -/
structure Expanding (context : LeadContext) (stack : List String) : Prop where
  nodup : stack.Nodup
  expandable : ∀ name ∈ stack, name ∉ context.hidden ∧ ∃ definition, context.grammar.lookup name = some definition

theorem Expanding.length_le {stack : List String} (h : Expanding context stack) :
    stack.length ≤ context.grammar.length := by
  have hsubset : stack ⊆ context.grammar.map Prod.fst := by
    intro name hname
    obtain ⟨-, definition, hlookup⟩ := h.expandable name hname
    exact List.mem_map_of_mem (mem_of_lookup hlookup)
  have hle := h.nodup.length_le_of_subset hsubset
  rwa [List.length_map] at hle

theorem Expanding.snoc {stack : List String} (h : Expanding context stack) {name : String} {definition : Rule}
    (hname : name ∉ context.hidden) (hlookup : context.grammar.lookup name = some definition)
    (hnew : name ∉ stack) : Expanding context (stack ++ [name]) := by
  have hnodup := List.nodup_cons.2 ⟨hnew, h.nodup⟩
  refine ⟨(List.perm_append_singleton name stack).nodup_iff.2 hnodup, fun other hother => ?_⟩
  rcases List.mem_append.1 hother with hother | hother
  · exact h.expandable other hother
  · rw [List.mem_singleton.1 hother]
    exact ⟨hname, definition, hlookup⟩

/-- A state in which the names of a list are being expanded, and a set is kept of a name only if the name starts
with it; of a name that is tangled, any set may be kept. -/
structure Lawful (context : LeadContext) (stack : List String) (state : LeadState) : Prop where
  stack : state.stack = stack
  kept : ∀ name onlyStart found, state.cache.lookup (name, onlyStart) = some found →
    Untangled context onlyStart name → Means context onlyStart name found

theorem Lawful.congr {stack : List String} {state state' : LeadState} (h : Lawful context stack state)
    (hstack : state'.stack = state.stack) (hcache : state'.cache = state.cache) :
    Lawful context stack state' := by
  refine ⟨hstack.trans h.stack, ?_⟩
  rw [hcache]
  exact h.kept

theorem Lawful.kept_cons {stack : List String} {state : LeadState} (h : Lawful context stack state)
    {name : String} {found : FirstSet}
    (hfound : Untangled context onlyStart name → Means context onlyStart name found) (other : String)
    (flag : Bool) (kept : FirstSet)
    (hkept : (((name, onlyStart), found) :: state.cache).lookup (other, flag) = some kept)
    (huntangled : Untangled context flag other) : Means context flag other kept := by
  rw [List.lookup_cons] at hkept
  split at hkept
  · rename_i heq
    cases hkept
    obtain ⟨rfl, rfl⟩ := Prod.mk.inj (eq_of_beq heq)
    exact hfound huntangled
  · exact h.kept _ _ _ hkept huntangled

/-- What a walk through a name finds, inside of the expansion of others. -/
structure Walked (context : LeadContext) (onlyStart : Bool) (stack : List String) (name : String)
    (result : FirstSet × LeadState) : Prop where
  lawful : Lawful context stack result.2
  means : Untangled context onlyStart name → name ∉ stack → Means context onlyStart name result.1

private theorem not_mem_of_findIdx? {name : String} {stack : List String}
    (h : stack.findIdx? (· = name) = none) : name ∉ stack := by
  intro hmem
  have hne := List.findIdx?_eq_none_iff.1 h name hmem
  simp at hne

theorem walkName_expanding {name : String} (hname : name ∉ context.hidden) (fuel : Nat) {state : LeadState}
    (hmem : name ∈ state.stack) : (walkName context onlyStart fuel name state).1 = .nothing := by
  cases fuel with
  | zero => rfl
  | succ fuel =>
    rw [walkName]
    dsimp only
    rw [if_neg (mt List.contains_iff_mem.1 hname)]
    cases hplace : state.stack.findIdx? (· = name) with
    | some place => rfl
    | none => exact (not_mem_of_findIdx? hplace hmem).elim

section

variable {stack : List String} {name : String} {definition : Rule}

theorem above_of_expands
    (habove : ∀ above ∈ stack, Untangled context onlyStart above →
      Relation.TransGen (Expands context onlyStart) above name)
    {other : String} (hexpands : Expands context onlyStart name other) :
    ∀ above ∈ stack ++ [name], Untangled context onlyStart above →
      Relation.TransGen (Expands context onlyStart) above other := by
  intro above hmem huntangled
  rcases List.mem_append.1 hmem with hmem | hmem
  · exact (habove above hmem huntangled).tail hexpands
  · rw [List.mem_singleton.1 hmem]
    exact .single hexpands

theorem above_of_tangled
    (habove : ∀ above ∈ stack, Untangled context onlyStart above →
      Relation.TransGen (Expands context onlyStart) above name)
    (htangled : ¬ Untangled context onlyStart name) :
    ∀ above ∈ stack ++ [name], ¬ Untangled context onlyStart above := by
  intro above hmem huntangled
  rcases List.mem_append.1 hmem with hmem | hmem
  · exact htangled (huntangled.comes (habove above hmem huntangled))
  · rw [List.mem_singleton.1 hmem] at huntangled
    exact htangled huntangled

/-- The walk through the definition of a name that is not tangled, if those through the names that it comes to are
as they should. -/
theorem walked_definition {ofName : String → Walk} (hname : name ∉ context.hidden)
    (hlookup : context.grammar.lookup name = some definition) (huntangled : Untangled context onlyStart name)
    (habove : ∀ above ∈ stack, Untangled context onlyStart above →
      Relation.TransGen (Expands context onlyStart) above name)
    (hself : ∀ s, Lawful context (stack ++ [name]) s → (ofName name s).1 = .nothing)
    (hothers : ∀ other, Visits context onlyStart (some name) definition other → ∀ s,
      Lawful context (stack ++ [name]) s →
      Walked context onlyStart (stack ++ [name]) other (ofName other s))
    {state : LeadState} (hstate : Lawful context (stack ++ [name]) state) :
    Lawful context (stack ++ [name]) (walk ofName onlyStart definition state).2 ∧
      Means context onlyStart name (walk ofName onlyStart definition state).1 := by
  have hmeans : ∀ other, Visits context onlyStart (some name) definition other → other ≠ name → ∀ s,
      Lawful context (stack ++ [name]) s → Means context onlyStart other (ofName other s).1 := by
    intro other hother hne s hs
    have hexpands : Expands context onlyStart name other := ⟨hname, definition, hlookup, hother⟩
    have hcomes := huntangled.comes (.single hexpands)
    refine (hothers other hother s hs).means hcomes fun hmem => hne ?_
    rcases List.mem_append.1 hmem with hmem | hmem
    · exact (huntangled name other .refl (.single hexpands) (habove other hmem hcomes)).symm
    · exact List.mem_singleton.1 hmem
  let f := fun other => if other = name then FirstSet.nothing else (ofName other state).1
  have hagree : Agree context onlyStart (some name) (fun s _ => Lawful context (stack ++ [name]) s) definition
      (walk ofName onlyStart definition) (walk (fun other => .pure (f other)) onlyStart definition) := by
    refine agree_walk fun other hother s _ hs => ?_
    have hlawful := (hothers other hother s hs).lawful
    by_cases heq : other = name
    · subst heq
      exact ⟨(hself s hs).trans (if_pos rfl).symm, hlawful, fun _ _ => .itself⟩
    · have hfound := hmeans other hother heq s hs
      exact ⟨(hfound.unique (hmeans other hother heq state hstate)).trans (if_neg heq).symm, hlawful,
        hfound.mayBeEmpty⟩
  obtain ⟨hfound, hlawful, -⟩ := hagree state .start hstate
  refine ⟨hlawful, ?_⟩
  rw [hfound]
  refine .defined hname hlookup (if_pos rfl) fun other hother hne => ?_
  rw [show f other = (ofName other state).1 from if_neg hne]
  exact hmeans other hother hne state hstate

/-- The same of any name: if it is tangled, so are all that it is expanded inside of, and nothing is said of what is
found. -/
theorem walked_expansion {ofName : String → Walk} (hname : name ∉ context.hidden)
    (hlookup : context.grammar.lookup name = some definition)
    (habove : ∀ above ∈ stack, Untangled context onlyStart above →
      Relation.TransGen (Expands context onlyStart) above name)
    (hself : ∀ s, Lawful context (stack ++ [name]) s → (ofName name s).1 = .nothing)
    (hothers : ∀ other s, Lawful context (stack ++ [name]) s →
      (∀ above ∈ stack ++ [name], Untangled context onlyStart above →
        Relation.TransGen (Expands context onlyStart) above other) →
      Walked context onlyStart (stack ++ [name]) other (ofName other s))
    {state : LeadState} (hstate : Lawful context (stack ++ [name]) state) :
    Lawful context (stack ++ [name]) (walk ofName onlyStart definition state).2 ∧
      (Untangled context onlyStart name →
        Means context onlyStart name (walk ofName onlyStart definition state).1) := by
  by_cases huntangled : Untangled context onlyStart name
  · have hvisited : ∀ other, Visits context onlyStart (some name) definition other → ∀ s,
        Lawful context (stack ++ [name]) s →
        Walked context onlyStart (stack ++ [name]) other (ofName other s) :=
      fun other hother s hs => hothers other s hs (above_of_expands habove ⟨hname, definition, hlookup, hother⟩)
    obtain ⟨hlawful, hmeans⟩ := walked_definition hname hlookup huntangled habove hself hvisited hstate
    exact ⟨hlawful, fun _ => hmeans⟩
  · have htangled := above_of_tangled habove huntangled
    have hkeeps : ∀ other s, Lawful context (stack ++ [name]) s →
        Lawful context (stack ++ [name]) (ofName other s).2 :=
      fun other s hs => (hothers other s hs fun above hmem h => (htangled above hmem h).elim).lawful
    exact ⟨walk_keeps hkeeps definition hstate, fun h => (huntangled h).elim⟩

/-- Whatever is kept, a walk through a name finds what the name starts with, if it is not tangled, and keeps
nothing else of it. -/
theorem walked_walkName (fuel : Nat) (hstack : Expanding context stack)
    (hfuel : context.grammar.length < fuel + stack.length)
    (habove : ∀ above ∈ stack, Untangled context onlyStart above →
      Relation.TransGen (Expands context onlyStart) above name)
    {state : LeadState} (hstate : Lawful context stack state) :
    Walked context onlyStart stack name (walkName context onlyStart fuel name state) := by
  induction fuel generalizing stack name state with
  | zero =>
    have := hstack.length_le
    omega
  | succ fuel ih =>
    rw [walkName]
    dsimp only
    split
    · rename_i hhidden
      exact ⟨hstate, fun _ _ => .hidden (List.contains_iff_mem.1 hhidden)⟩
    rename_i hhidden
    have hname : name ∉ context.hidden := fun h => hhidden (List.contains_iff_mem.2 h)
    split
    · rename_i place hplace
      obtain ⟨hlt, heq, -⟩ := List.findIdx?_eq_some_iff_getElem.1 hplace
      have hmem : name ∈ stack := by
        rw [← hstate.stack, ← of_decide_eq_true heq]
        exact List.getElem_mem hlt
      exact ⟨hstate.congr rfl rfl, fun _ hnew => (hnew hmem).elim⟩
    rename_i hplace
    have hnew : name ∉ stack := hstate.stack ▸ not_mem_of_findIdx? hplace
    split
    · rename_i hlookup
      exact ⟨hstate, fun _ _ => .undefined hname hlookup⟩
    rename_i definition hlookup
    split
    · rename_i found hcache
      exact ⟨hstate, fun huntangled _ => hstate.kept _ _ _ hcache huntangled⟩
    · have hexpanding := hstack.snoc hname hlookup hnew
      have hroom : context.grammar.length < fuel + (stack ++ [name]).length := by
        rw [List.length_append, List.length_singleton]
        omega
      have hinner : Lawful context (stack ++ [name])
          { state with stack := state.stack ++ [name], lowestHit := none } :=
        ⟨congrArg (· ++ [name]) hstate.stack, hstate.kept⟩
      have hself : ∀ s, Lawful context (stack ++ [name]) s →
          (walkName context onlyStart fuel name s).1 = .nothing := by
        intro s hs
        refine walkName_expanding hname fuel ?_
        rw [hs.stack]
        exact List.mem_append_right _ List.mem_cons_self
      have hwalk := walked_expansion hname hlookup habove hself
        (fun other s hs hbelow => ih hexpanding hroom hbelow hs) hinner
      refine ⟨⟨hstate.stack, ?_⟩, fun huntangled _ => hwalk.2 huntangled⟩
      dsimp only
      split
      · exact hwalk.1.kept_cons hwalk.2
      · exact hwalk.1.kept

end

end

/-! ### Queries -/

/-- What an analysis is asked for: the first set of a name, or of a definition. -/
inductive Query where
  | name (name : String) (onlyStart : Bool)
  | rule (rule : Rule) (onlyStart : Bool)

namespace Query

/-- The definition that is asked about. Of a name, this is a reference to it. -/
def subject : Query → Rule
  | name text _ => .text text
  | rule r _ => r

def onlyStart : Query → Bool
  | name _ flag => flag
  | rule _ flag => flag

def ask (context : LeadContext) : Query → Walk
  | name text flag => ofName context text flag
  | rule r flag => ofRule context r flag

/-- What is known after some queries, asked one after the other. -/
def after (context : LeadContext) (queries : List Query) : LeadState :=
  queries.foldl (fun state query => (query.ask context state).2) .start

/-- The names that the walk comes to are not tangled. -/
def Untangled (context : LeadContext) (query : Query) : Prop :=
  ∀ name, Visits context query.onlyStart none query.subject name → Lead.Untangled context query.onlyStart name

variable {context : LeadContext}

theorem ask_eq (query : Query) : query.ask context =
    walk (walkName context query.onlyStart (fuelFor context)) query.onlyStart query.subject := by
  cases query with
  | name text flag =>
    rw [subject, walk_eq]
    rfl
  | rule r flag => rfl

theorem walked_ofName (onlyStart : Bool) (name : String) {state : LeadState} (hstate : Lawful context [] state) :
    Walked context onlyStart [] name (walkName context onlyStart (fuelFor context) name state) :=
  walked_walkName _ ⟨List.nodup_nil, fun _ h => by cases h⟩ (Nat.lt_succ_self _) (fun _ h => by cases h) hstate

theorem lawful_ask (query : Query) {state : LeadState} (hstate : Lawful context [] state) :
    Lawful context [] (query.ask context state).2 := by
  rw [ask_eq]
  have hkeeps : ∀ name s, Lawful context [] s →
      Lawful context [] (walkName context query.onlyStart (fuelFor context) name s).2 :=
    fun name s hs => (walked_ofName query.onlyStart name hs).lawful
  exact walk_keeps hkeeps query.subject hstate

theorem lawful_start : Lawful context [] .start :=
  ⟨rfl, fun _ _ _ h => by cases h⟩

theorem lawful_after (queries : List Query) : Lawful context [] (after context queries) := by
  have hrun : ∀ state, Lawful context [] state →
      Lawful context [] (queries.foldl (fun state query => (query.ask context state).2) state) := by
    induction queries with
    | nil => exact fun state hstate => hstate
    | cons query queries ih => exact fun state hstate => ih _ (lawful_ask query hstate)
  exact hrun .start lawful_start

/-- Whatever was asked before, a query is answered as if it were the first, if its names are not tangled. -/
theorem answer_independent (earlier : List Query) (query : Query) (h : query.Untangled context) :
    (query.ask context (after context earlier)).1 = (query.ask context .start).1 := by
  rw [ask_eq]
  have hagree : Agree context query.onlyStart none (fun s s' => Lawful context [] s ∧ Lawful context [] s')
      query.subject (walk (walkName context query.onlyStart (fuelFor context)) query.onlyStart query.subject)
      (walk (walkName context query.onlyStart (fuelFor context)) query.onlyStart query.subject) := by
    refine agree_walk fun name hname => ?_
    rintro s s' ⟨hs, hs'⟩
    have hwalked := walked_ofName query.onlyStart name hs
    have hwalked' := walked_ofName query.onlyStart name hs'
    have hfound := hwalked.means (h name hname) List.not_mem_nil
    have hfound' := hwalked'.means (h name hname) List.not_mem_nil
    exact ⟨hfound.unique hfound', ⟨hwalked.lawful, hwalked'.lawful⟩, hfound.mayBeEmpty⟩
  exact (hagree _ _ ⟨lawful_after earlier, lawful_start⟩).found

/-- Sums of numbers and bracketed sums, and two rules that begin with each other. -/
def mixed : LeadContext where
  grammar := [
    ("a", .list [.text "b", .combinator "$literal" (.text "x")]),
    ("b", .list [.text "a", .combinator "$literal" (.text "w")]),
    ("sum", .list [.text "term",
      .combinator "$optional" (.list [.combinator "$literal" (.text "+"), .text "sum"])]),
    ("term", .combinator "$or" (.list [.text "number", .text "group"])),
    ("group", .list [.text "open", .text "sum", .text "close"]),
    ("number", .combinator "$literal" (.text "1")),
    ("open", .combinator "$literal" (.text "(")),
    ("close", .combinator "$literal" (.text ")"))]
  hidden := []
  bareLiterals := false

def mixedQueries : List Query :=
  [.name "b" true, .rule (.list [.text "a", .text "sum"]) false, .name "term" true]

theorem not_mayBeEmpty_open : ¬ MayBeEmpty mixed (some "group") (.text "open") :=
  fun h => not_mayBeEmpty_literal (h.definition rfl (by decide))

theorem not_mayBeEmpty_term : ¬ MayBeEmpty mixed (some "sum") (.text "term") := by
  intro h
  refine not_mayBeEmpty_choice ?_ (h.definition rfl (by decide))
  rw [List.forall_mem_cons, List.forall_mem_singleton]
  exact ⟨fun h => not_mayBeEmpty_literal (h.definition rfl (by decide)),
    fun h => not_mayBeEmpty_list not_mayBeEmpty_open (h.definition rfl (by decide))⟩

theorem untangled_sum : (Query.name "sum" true).Untangled mixed := by
  intro name hname
  rw [visits_text hname]
  refine untangled_of_rank (P := (· ∈ ["sum", "term", "group", "number", "open"]))
    (fun name => ["open", "number", "group", "term", "sum"].idxOf name) ?_ List.mem_cons_self
  rintro a b ha ⟨-, definition, hlookup, hvisits⟩
  have hcases : a = "sum" ∨ a = "term" ∨ a = "group" ∨ a = "number" ∨ a = "open" := by
    simpa using ha
  rcases hcases with rfl | rfl | rfl | rfl | rfl
  · cases hlookup
    rw [visits_text (visits_list not_mayBeEmpty_term hvisits)]
    decide
  · cases hlookup
    obtain ⟨branch, hbranch, hvisits⟩ := visits_choice hvisits
    rcases List.mem_cons.1 hbranch with rfl | hbranch
    · rw [visits_text hvisits]
      decide
    · rw [List.mem_singleton.1 hbranch] at hvisits
      rw [visits_text hvisits]
      decide
  · cases hlookup
    rw [visits_text (visits_list not_mayBeEmpty_open hvisits)]
    decide
  · cases hlookup
    exact (not_visits_literal hvisits).elim
  · cases hlookup
    exact (not_visits_literal hvisits).elim

theorem answer_independent_sum :
    (Query.name "sum" true).Untangled mixed ∧
      ((Query.name "sum" true).ask mixed (after mixed mixedQueries)).1 =
        ((Query.name "sum" true).ask mixed .start).1 ∧
      ((Query.name "sum" true).ask mixed .start).1 = .ofList [.literal "(", .literal "1"] :=
  ⟨untangled_sum, answer_independent mixedQueries _ untangled_sum, by decide +kernel⟩

/-- Of two rules that begin with each other, what is asked of the one decides what the other starts with. -/
theorem answer_depends_on_circle :
    ((Query.name "b" true).ask mixed .start).1 = .literal "x" ∧
      ((Query.name "b" true).ask mixed (after mixed [.name "a" true])).1 = .literal "w" ∧
      FirstSet.literal "x" ≠ FirstSet.literal "w" := by
  decide +kernel

end Query

end PegGrammar.Lead
