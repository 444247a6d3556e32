import PegGrammar.Proofs.Compile.Rendering
import PegGrammar.Proofs.Compile.Result
import PegGrammar.Proofs.Finite.Registry

/-!
# What a session compiles

A rule gets its number before its body exists, and while the body is made, the rules that it refers to are
added behind it. Seen from the outside this is simpler: whatever a step of a session compiles, it adds
finished rules at the end and leaves the others alone. A rule that is being compiled is an unfinished one
among the others, and is finished by the step that added it. So a step grows the table, walks on with
the names of the table, and gives a parser of its definition; from there on it is composition.
-/

namespace PegGrammar

open Compiling

/-- First sets and literals as the analysis of alternatives, one after the other, leaves them. -/
inductive Compiler.Analysed (c : Compiler) : LeadState → Registry String → Prop
  | start : Analysed c .start (.empty 0)
  | next {s t : Session} {r : Rule} {first : Option BitSet} : Analysed c s.leads s.literals →
      (branchLiterals c r).result s = (.ok first, t) → Analysed c t.leads t.literals

/-- An alternative carries what its analysis gave, at some point of the session, and its literals have
kept their numbers. -/
def Compiler.Carries (c : Compiler) (literals : Registry String) (r : Rule) (first : Option BitSet) :
    Prop :=
  ∃ s t : Session, c.Analysed s.leads s.literals ∧ (branchLiterals c r).result s = (.ok first, t) ∧
    t.literals.entries ⊆ literals.entries

/-- A rule of a table has the parser of its definition. -/
def Compiler.Defines (c : Compiler) (names : List String) (lead : Rule → Option BitSet → Prop)
    (rule : CompiledRule) : Prop :=
  ∃ definition, c.grammar.lookup rule.name = some definition ∧
    c.Renders names lead definition rule.body

namespace Session

/-- The names that have a number, in the order of their numbers. -/
def names (s : Session) : List String := s.table.rules.map Prod.fst

/-- A step adds finished rules, each with the parser of its definition, and keeps what there was. -/
structure Grows (c : Compiler) (s t : Session) : Prop where
  rules : ∃ added : List CompiledRule,
    t.table.rules = s.table.rules ++ added.map (fun rule => (rule.name, some rule.body)) ∧
      ∀ rule ∈ added, c.Defines t.names (c.Carries t.literals) rule
  leads : c.Analysed s.leads s.literals → c.Analysed t.leads t.literals
  literals : s.literals.entries ⊆ t.literals.entries

/-- A step that walks through definitions: it grows the session by what the walk meets. -/
structure Advances (c : Compiler) (work : List Rule) (s t : Session) : Prop extends Grows c s t where
  meets : c.Meets s.names work t.names

variable {c : Compiler} {s t u : Session}

theorem Grows.names_prefix (h : s.Grows c t) : s.names <+: t.names := by
  obtain ⟨added, hrules, -⟩ := h.rules
  rw [names, names, hrules, List.map_append]
  exact List.prefix_append _ _

theorem Grows.carries (h : s.Grows c t) {r : Rule} {first : Option BitSet}
    (hfirst : c.Carries s.literals r first) : c.Carries t.literals r first := by
  obtain ⟨s', t', hanalysed, hresult, hsubset⟩ := hfirst
  exact ⟨s', t', hanalysed, hresult, List.Subset.trans hsubset h.literals⟩

theorem Grows.renders (h : s.Grows c t) {r : Rule} {q : Parser}
    (hq : c.Renders s.names (c.Carries s.literals) r q) :
    c.Renders t.names (c.Carries t.literals) r q :=
  hq.mono h.names_prefix (fun _ _ => h.carries)

theorem Grows.trans (hst : s.Grows c t) (htu : t.Grows c u) : s.Grows c u := by
  obtain ⟨first, hfirst, hdefines⟩ := hst.rules
  obtain ⟨second, hsecond, hmore⟩ := htu.rules
  refine ⟨⟨first ++ second, ?_, fun rule hrule => ?_⟩, htu.leads ∘ hst.leads,
    List.Subset.trans hst.literals htu.literals⟩
  · rw [hsecond, hfirst, List.append_assoc, List.map_append]
  · rcases List.mem_append.1 hrule with hrule | hrule
    · obtain ⟨definition, hlookup, hbody⟩ := hdefines rule hrule
      exact ⟨definition, hlookup, htu.renders hbody⟩
    · exact hmore rule hrule

theorem Grows.of_table_eq (htable : t.table = s.table)
    (hleads : c.Analysed s.leads s.literals → c.Analysed t.leads t.literals)
    (hliterals : s.literals.entries ⊆ t.literals.entries) : s.Grows c t := by
  refine ⟨⟨[], ?_, fun rule hrule => ?_⟩, hleads, hliterals⟩
  · rw [htable, List.map_nil, List.append_nil]
  · cases hrule

theorem Advances.trans {work more : List Rule} (hst : s.Advances c work t)
    (htu : t.Advances c more u) : s.Advances c (work ++ more) u :=
  ⟨hst.toGrows.trans htu.toGrows, hst.meets.append htu.meets⟩

theorem Advances.done (h : s.Grows c t) (htable : t.table = s.table) : s.Advances c [] t := by
  refine ⟨h, ?_⟩
  rw [names, names, htable]
  exact .done

/-- To walk through a definition is to walk through its parts. -/
theorem Advances.of_parts {r : Rule} (hshape : ∀ name, r.shape ≠ .reference name)
    (h : s.Advances c r.shape.parts t) : s.Advances c [r] t := by
  refine ⟨h.toGrows, .parts hshape ?_⟩
  rw [List.append_nil]
  exact h.meets

end Session

/-- A step of a session compiles a definition: it walks through it and gives its parser. -/
structure Compiler.Compiles (c : Compiler) (r : Rule) (s : Session) (q : Parser) (t : Session) :
    Prop where
  advances : s.Advances c [r] t
  renders : c.Renders t.names (c.Carries t.literals) r q

/-- Wherever a step succeeds, it compiles a definition. -/
def Compiler.Faithful (c : Compiler) (m : Compiling Parser) (r : Rule) : Prop :=
  ∀ s q t, c.Analysed s.leads s.literals → m.result s = (.ok q, t) → c.Compiles r s q t

namespace Compiling

variable {c : Compiler} {s t : Session}

theorem Passive.advances {α : Type} {m : Compiling α} (hm : Passive m) {a : α}
    (h : m.result s = (.ok a, t)) : s.Advances c [] t := by
  obtain ⟨htable, hleads, hliterals⟩ := hm.unchanged h
  refine .done (.of_table_eq htable (fun hs => ?_) (hliterals ▸ List.Subset.refl _)) htable
  rw [hleads, hliterals]
  exact hs

theorem sound_numbered (texts : List String) {literals : Registry String} (h : literals.Sound) :
    (numbered texts literals).2.Sound ∧ literals.entries ⊆ (numbered texts literals).2.entries := by
  rw [numbered]
  generalize BitSet.empty literals.identity = set
  induction texts generalizing set literals with
  | nil => exact ⟨h, List.Subset.refl _⟩
  | cons text texts ih =>
    obtain ⟨hsound, hsubset⟩ := ih (h.getOrAdd text) (set.addId (literals.getOrAdd text).1)
    exact ⟨hsound, List.Subset.trans (h.entries_subset_getOrAdd text) hsubset⟩

theorem kept_branchLiterals {r : Rule} {first : Option BitSet} (hs : s.literals.Sound)
    (h : (branchLiterals c r).result s = (.ok first, t)) :
    t.table = s.table ∧ t.literals.Sound ∧ s.literals.entries ⊆ t.literals.entries := by
  rw [result_branchLiterals] at h
  dsimp only at h
  split at h
  · split at h
    · cases h
      exact ⟨rfl, sound_numbered _ hs⟩
    · cases h
      exact ⟨rfl, hs, List.Subset.refl _⟩
  · cases h
    exact ⟨rfl, hs, List.Subset.refl _⟩

theorem sound_of_analysed {leads : LeadState} {literals : Registry String}
    (h : c.Analysed leads literals) : literals.Sound := by
  induction h with
  | start => exact Registry.sound_empty 0
  | next _ hresult ih => exact (kept_branchLiterals ih hresult).2.1

theorem advances_branchLiterals {r : Rule} {first : Option BitSet} (hs : c.Analysed s.leads s.literals)
    (h : (branchLiterals c r).result s = (.ok first, t)) : s.Advances c [] t := by
  obtain ⟨htable, -, hsubset⟩ := kept_branchLiterals (sound_of_analysed hs) h
  exact .done (.of_table_eq htable (fun hs => .next hs h) hsubset) htable

section

variable {ofRule : Rule → String → Compiling Parser}

theorem compiles_bodies {rules : List Rule} (hrules : ∀ r ∈ rules, c.Faithful (body c ofRule r) r)
    {qs : List Parser} (hs : c.Analysed s.leads s.literals)
    (h : (bodies c ofRule rules).result s = (.ok qs, t)) :
    s.Advances c rules t ∧ rules.length = qs.length ∧
      ∀ pair ∈ rules.zip qs, c.Renders t.names (c.Carries t.literals) pair.1 pair.2 := by
  induction rules generalizing s qs with
  | nil =>
    rw [bodies_nil, result_pure_eq_ok] at h
    obtain ⟨rfl, rfl⟩ := h
    exact ⟨(passive_pure ()).advances rfl, rfl, fun pair hpair => by cases hpair⟩
  | cons r rules ih =>
    rw [bodies_cons, result_bind_eq_ok] at h
    obtain ⟨q, mid, hq, h⟩ := h
    rw [result_bind_eq_ok] at h
    obtain ⟨rest, last, hrest, h⟩ := h
    obtain ⟨rfl, rfl⟩ := result_pure_eq_ok.1 h
    have hfirst := hrules r List.mem_cons_self s q mid hs hq
    obtain ⟨hmore, hlength, hrenders⟩ :=
      ih (fun r hr => hrules r (List.mem_cons_of_mem _ hr)) (hfirst.advances.leads hs) hrest
    refine ⟨hfirst.advances.trans hmore, congrArg (· + 1) hlength, fun pair hpair => ?_⟩
    rcases List.mem_cons.1 hpair with rfl | hpair
    · exact hmore.toGrows.renders hfirst.renders
    · exact hrenders pair hpair

theorem compiles_branches {rules : List Rule}
    (hrules : ∀ r ∈ rules, c.Faithful (body c ofRule r) r) {qs : List (Option BitSet × Parser)}
    (hs : c.Analysed s.leads s.literals)
    (h : (branches c ofRule rules).result s = (.ok qs, t)) :
    s.Advances c rules t ∧ rules.length = qs.length ∧
      (∀ pair ∈ rules.zip qs, c.Carries t.literals pair.1 pair.2.1) ∧
      ∀ pair ∈ rules.zip qs, c.Renders t.names (c.Carries t.literals) pair.1 pair.2.2 := by
  induction rules generalizing s qs with
  | nil =>
    rw [branches_nil, result_pure_eq_ok] at h
    obtain ⟨rfl, rfl⟩ := h
    have hnone : ∀ pair, pair ∉ ([] : List Rule).zip ([] : List (Option BitSet × Parser)) :=
      fun _ => List.not_mem_nil
    exact ⟨(passive_pure ()).advances rfl, rfl, fun pair hpair => (hnone pair hpair).elim,
      fun pair hpair => (hnone pair hpair).elim⟩
  | cons r rules ih =>
    rw [branches_cons, result_bind_eq_ok] at h
    obtain ⟨q, mid, hq, h⟩ := h
    rw [result_bind_eq_ok] at h
    obtain ⟨first, found, hfound, h⟩ := h
    rw [result_bind_eq_ok] at h
    obtain ⟨rest, last, hrest, h⟩ := h
    obtain ⟨rfl, rfl⟩ := result_pure_eq_ok.1 h
    have hfirst := hrules r List.mem_cons_self s q mid hs hq
    have hmid := hfirst.advances.leads hs
    have hlead : mid.Advances c [] found := advances_branchLiterals hmid hfound
    obtain ⟨hmore, hlength, hcarries, hrenders⟩ :=
      ih (fun r hr => hrules r (List.mem_cons_of_mem _ hr)) (hlead.leads hmid) hrest
    refine ⟨hfirst.advances.trans (hlead.trans hmore), congrArg (· + 1) hlength, ?_, ?_⟩
    · intro pair hpair
      rcases List.mem_cons.1 hpair with rfl | hpair
      · exact ⟨mid, found, hmid, hfound, hmore.literals⟩
      · exact hcarries pair hpair
    · intro pair hpair
      rcases List.mem_cons.1 hpair with rfl | hpair
      · exact (hlead.toGrows.trans hmore.toGrows).renders hfirst.renders
      · exact hrenders pair hpair

private theorem compiles_unary {r part : Rule} {wrap : Parser → Parser}
    (hshape : ∀ name, r.shape ≠ .reference name) (hparts : r.shape.parts = [part])
    (hwrap : ∀ names lead q, c.Renders names lead part q → c.Renders names lead r (wrap q))
    (hpart : c.Faithful (body c ofRule part) part) :
    c.Faithful (body c ofRule part >>= fun q => pure (wrap q)) r := by
  intro s q t hs h
  obtain ⟨inner, mid, hinner, h⟩ := result_bind_eq_ok.1 h
  obtain ⟨rfl, rfl⟩ := result_pure_eq_ok.1 h
  have hcompiles := hpart s inner t hs hinner
  exact ⟨.of_parts hshape (hparts ▸ hcompiles.advances), hwrap _ _ _ hcompiles.renders⟩

private theorem compiles_leaf {r : Rule} {m : Compiling Parser}
    (hshape : ∀ name, r.shape ≠ .reference name) (hparts : r.shape.parts = []) (hm : Passive m)
    (hrenders : ∀ s q t, m.result s = (.ok q, t) → ∀ names lead, c.Renders names lead r q) :
    c.Faithful m r :=
  fun s q t _ h => ⟨.of_parts hshape (hparts ▸ hm.advances h), hrenders s q t h _ _⟩

theorem faithful_reference (hofRule : ∀ name definition, c.definition? name = some definition →
      c.Faithful (ofRule definition name) (.text name)) (name : String) :
    c.Faithful (reference c ofRule name) (.text name) := by
  have leaf : ∀ {m : Compiling Parser}, c.definition? name = none → Passive m →
      (∀ s q t, m.result s = (.ok q, t) → ∀ names lead, c.Renders names lead (.text name) q) →
      c.Faithful m (.text name) := by
    intro m hnone hm hrenders s q t _ h
    have hpassive := hm.advances (c := c) h
    exact ⟨⟨hpassive.toGrows, .undefined hnone hpassive.meets⟩, hrenders s q t h _ _⟩
  rw [reference_eq]
  cases hreplaced : c.overrides.lookup name with
  | some replacement =>
    refine leaf (Compiler.definition?_eq_none_of_replaced hreplaced)
      ((passive_note _).bind fun _ => passive_pure _) fun s q t h names lead => ?_
    obtain ⟨_, _, _, h⟩ := result_bind_eq_ok.1 h
    obtain ⟨rfl, rfl⟩ := result_pure_eq_ok.1 h
    exact .replaced hreplaced
  | none =>
    dsimp only
    cases hdefined : c.grammar.lookup name with
    | some definition =>
      exact hofRule name definition (Compiler.definition?_eq_some hreplaced hdefined)
    | none =>
      exact leaf (Compiler.definition?_eq_none_of_undefined hdefined) (passive_undefined c name)
        fun s q t h _ _ => .undefined hreplaced hdefined (undefined_eq_ok h)

theorem faithful_layer (hofRule : ∀ name definition, c.definition? name = some definition →
      c.Faithful (ofRule definition name) (.text name)) {r : Rule}
    (hparts : ∀ part ∈ r.shape.parts, c.Faithful (body c ofRule part) part) :
    c.Faithful (layer c ofRule r.shape) r := by
  rcases Classical.em (∃ name, r.shape = .reference name) with ⟨name, hname⟩ | hnone
  · rw [hname, Rule.eq_text_of_shape hname]
    exact faithful_reference hofRule name
  have hne : ∀ name, r.shape ≠ .reference name := fun name h => hnone ⟨name, h⟩
  have hpart : ∀ {part}, r.shape.parts = [part] → c.Faithful (body c ofRule part) part :=
    fun heq => hparts _ (heq ▸ List.mem_singleton_self _)
  cases hshape : r.shape with
  | reference name => exact (hne name hshape).elim
  | sequence items =>
    have heq : r.shape.parts = items := congrArg Rule.Shape.parts hshape
    intro s q t hs h
    obtain ⟨qs, mid, hqs, h⟩ := result_bind_eq_ok.1 h
    obtain ⟨rfl, rfl⟩ := result_pure_eq_ok.1 h
    obtain ⟨hadvances, hlength, hrenders⟩ := compiles_bodies (heq ▸ hparts) hs hqs
    exact ⟨.of_parts hne (heq ▸ hadvances), .sequence hshape hlength hrenders⟩
  | choice rules =>
    have heq : r.shape.parts = rules := congrArg Rule.Shape.parts hshape
    intro s q t hs h
    obtain ⟨qs, mid, hqs, h⟩ := result_bind_eq_ok.1 h
    obtain ⟨rfl, rfl⟩ := result_pure_eq_ok.1 h
    obtain ⟨hadvances, hlength, hcarries, hrenders⟩ := compiles_branches (heq ▸ hparts) hs hqs
    exact ⟨.of_parts hne (heq ▸ hadvances), .choice hshape hlength hcarries hrenders⟩
  | repeated part =>
    have heq : r.shape.parts = [part] := congrArg Rule.Shape.parts hshape
    exact compiles_unary hne heq (fun _ _ _ hq => .repeated hshape hq) (hpart heq)
  | ahead part =>
    have heq : r.shape.parts = [part] := congrArg Rule.Shape.parts hshape
    exact compiles_unary hne heq (fun _ _ _ hq => .ahead hshape hq) (hpart heq)
  | notAhead part =>
    have heq : r.shape.parts = [part] := congrArg Rule.Shape.parts hshape
    exact compiles_unary hne heq (fun _ _ _ hq => .notAhead hshape hq) (hpart heq)
  | optional part =>
    have heq : r.shape.parts = [part] := congrArg Rule.Shape.parts hshape
    exact compiles_unary hne heq (fun _ _ _ hq => .optional hshape hq) (hpart heq)
  | annotated value =>
    have heq : r.shape.parts = [value] := congrArg Rule.Shape.parts hshape
    intro s q t hs h
    have hvalue := hpart heq s q t hs h
    exact ⟨.of_parts hne (heq ▸ hvalue.advances), .annotated hshape hvalue.renders⟩
  | literal text =>
    refine compiles_leaf hne (congrArg Rule.Shape.parts hshape) (passive_literal text)
      fun s q t h names lead => ?_
    obtain ⟨htext, rfl⟩ := literal_eq_ok h
    exact .literal hshape htext
  | regex source =>
    have heq : r.shape.parts = [] := congrArg Rule.Shape.parts hshape
    dsimp only [layer, Parser.ofPattern?]
    cases hpattern : Pattern.ofString? source with
    | none =>
      refine compiles_leaf hne heq (passive_fail _) fun s q t h names lead => ?_
      cases h
    | some pattern =>
      refine compiles_leaf hne heq (passive_pure _) fun s q t h names lead => ?_
      obtain ⟨rfl, rfl⟩ := result_pure_eq_ok.1 h
      exact .regex hshape hpattern
  | eof =>
    refine compiles_leaf hne (congrArg Rule.Shape.parts hshape) (passive_pure _)
      fun s q t h names lead => ?_
    obtain ⟨rfl, rfl⟩ := result_pure_eq_ok.1 h
    exact .eof hshape
  | indent =>
    refine compiles_leaf hne (congrArg Rule.Shape.parts hshape) (passive_pure _)
      fun s q t h names lead => ?_
    obtain ⟨rfl, rfl⟩ := result_pure_eq_ok.1 h
    exact .indent hshape
  | script source =>
    have heq : r.shape.parts = [] := congrArg Rule.Shape.parts hshape
    dsimp only [layer]
    cases hhandle : c.scripts.compile source with
    | error reason =>
      refine compiles_leaf hne heq (passive_fail _) fun s q t h names lead => ?_
      cases h
    | ok handle =>
      refine compiles_leaf hne heq (passive_pure _) fun s q t h names lead => ?_
      obtain ⟨rfl, rfl⟩ := result_pure_eq_ok.1 h
      exact .script hshape hhandle
  | wrong error =>
    refine compiles_leaf hne (congrArg Rule.Shape.parts hshape) (passive_fail _)
      fun s q t h names lead => ?_
    cases h

/-- A definition is compiled faithfully if the rules that it names are. -/
theorem faithful_body (hofRule : ∀ name definition, c.definition? name = some definition →
      c.Faithful (ofRule definition name) (.text name)) (r : Rule) :
    c.Faithful (body c ofRule r) r := by
  induction r using Rule.induction_on_parts with
  | step r ih =>
    rw [body_eq]
    intro s q t hs h
    obtain ⟨_, mid, hmid, h⟩ := result_bind_eq_ok.1 h
    have hintroduced : s.Advances c [] mid := (passive_introduction r).advances hmid
    have hlayer := faithful_layer hofRule ih mid q t (hintroduced.leads hs) h
    exact ⟨hintroduced.trans hlayer.advances, hlayer.renders⟩

end

/-! ### Named rules -/

theorem names_getElem?_of_id? {s : Session} {name : String} {id : Nat}
    (h : s.table.id? name = some id) : s.names[id]? = some name := by
  rw [RuleTable.id?, List.findIdx?_eq_some_iff_getElem] at h
  obtain ⟨hlt, hname, -⟩ := h
  rw [Session.names, List.getElem?_map, List.getElem?_eq_getElem hlt]
  exact congrArg some (of_decide_eq_true hname)

theorem not_mem_names_of_id? {s : Session} {name : String} (h : s.table.id? name = none) :
    name ∉ s.names := by
  intro hmem
  obtain ⟨entry, hentry, rfl⟩ := List.mem_map.1 hmem
  have hne := List.findIdx?_eq_none_iff.1 h entry hentry
  simp at hne

private theorem modify_length_append {α : Type} (f : α → α) (before : List α) (a : α)
    (after : List α) : (before ++ a :: after).modify before.length f = before ++ f a :: after := by
  induction before with
  | nil => rfl
  | cons b before ih => exact congrArg (b :: ·) ih

theorem rules_keeping {name : String} {inner : Session} {added : List (String × Option Parser)}
    (hrules : inner.table.rules = (s.entering name).table.rules ++ added) (body : Parser) :
    (inner.leaving.keeping s.table.size name body).table.rules =
      s.table.rules ++ (name, some body) :: added := by
  change inner.table.rules.modify s.table.size _ = _
  rw [hrules]
  change ((s.table.rules ++ [(name, none)]) ++ _).modify s.table.rules.length _ = _
  rw [List.append_assoc]
  exact modify_length_append _ _ _ _

/-- A name that is new is compiled inside of the session that has it as its last, unfinished name; in the
end it is finished, with the names that its definition leads to behind it. -/
theorem grows_named {name : String} {definition : Rule} {compile : Compiling Parser}
    (hlookup : c.grammar.lookup name = some definition) (hcompile : c.Faithful compile definition)
    {id : Nat} (hs : c.Analysed s.leads s.literals) (hnew : s.table.id? name = none)
    (h : (named name compile).result s = (.ok id, t)) :
    s.Grows c t ∧ t.names[id]? = some name ∧ id = s.table.size ∧
      c.Meets (s.names ++ [name]) [definition] t.names := by
  rw [result_named, hnew] at h
  dsimp only at h
  rcases hinner : compile.result (s.entering name) with ⟨e | body, inner⟩
  · rw [hinner] at h
    cases h
  rw [hinner] at h
  cases h
  obtain ⟨⟨⟨⟨added, hrules, hdefines⟩, hleads, hliterals⟩, hmeets⟩, hrenders⟩ :=
    hcompile (s.entering name) body inner hs hinner
  have hentered : (s.entering name).names = s.names ++ [name] := List.map_append
  have hstored : (inner.leaving.keeping s.table.size name body).table.rules =
      s.table.rules ++
        (⟨name, body⟩ :: added).map (fun rule => (rule.name, some rule.body)) :=
    rules_keeping hrules body
  have hnames : (inner.leaving.keeping s.table.size name body).names = inner.names := by
    rw [Session.names, hstored, Session.names, hrules]
    simp [Session.entering]
  rw [hentered] at hmeets
  refine ⟨⟨⟨⟨name, body⟩ :: added, hstored, fun rule hrule => ?_⟩, hleads, hliterals⟩, ?_, rfl, ?_⟩
  · rw [hnames]
    rcases List.mem_cons.1 hrule with rfl | hrule
    · exact ⟨definition, hlookup, hrenders⟩
    · exact hdefines rule hrule
  · rw [Session.names, hstored]
    simp [RuleTable.size]
  · rw [hnames]
    exact hmeets

/-- A name with a definition compiles to what a reference to it stands for. -/
theorem faithful_rule (fuel : Nat) (name : String) (definition : Rule)
    (hdefinition : c.definition? name = some definition) :
    c.Faithful (rule c fuel definition name) (.text name) := by
  induction fuel generalizing name definition with
  | zero =>
    intro s q t hs h
    cases h
  | succ fuel ih =>
    intro s q t hs h
    have hbody := faithful_body (fun name definition => ih name definition) definition
    rw [rule] at h
    split at h
    · rename_i hempty
      subst hempty
      have hcompiles := hbody s q t hs h
      exact ⟨⟨hcompiles.advances.toGrows, .inlined hdefinition hcompiles.advances.meets⟩,
        .inlined hdefinition hcompiles.renders⟩
    · rename_i hne
      obtain ⟨id, mid, hnamed, h⟩ := result_bind_eq_ok.1 h
      obtain ⟨rfl, rfl⟩ := result_pure_eq_ok.1 h
      cases hid : s.table.id? name with
      | some known =>
        rw [result_named, hid] at hnamed
        cases hnamed
        have hname := names_getElem?_of_id? hid
        have hgrows : s.Grows c s := .of_table_eq rfl (fun h => h) (List.Subset.refl _)
        exact ⟨⟨hgrows, .known (List.mem_of_getElem? hname) .done⟩, .called hdefinition hne hname⟩
      | none =>
        obtain ⟨hgrows, hname, -, hmeets⟩ :=
          grows_named (Compiler.lookup_of_definition? hdefinition).2 hbody hs hid hnamed
        exact ⟨⟨hgrows, .entered hdefinition hne (not_mem_names_of_id? hid) hmeets⟩,
          .called hdefinition hne hname⟩

end Compiling

end PegGrammar
