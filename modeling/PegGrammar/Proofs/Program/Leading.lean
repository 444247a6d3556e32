import PegGrammar.Proofs.Compile.Guarding
import PegGrammar.Proofs.Program.Restoration

/-!
# Matches start as derived

Where a parser matches, its definition starts with something that stands there: a literal that the rest of
the text begins with, or anything, or nothing, and then the match is empty. Derivations know nothing of
what was matched before or of what comes after, so this holds wherever the parser is run. It takes for
granted that patterns start as their analysis says; all else follows from how matches are put together.
-/

namespace PegGrammar

/-- A lead opens a match from one place to another: it stands at the first, or the match is empty. -/
def Lead.Opens (lead : Lead) (p q : Place) : Prop :=
  match lead with
  | .nothing => q = p
  | .anything => True
  | .literal text => text.toList <+: p.rest

theorem Lead.Opens.congr {lead : Lead} {p q : Place} (h : lead.Opens p q) (hne : lead ≠ .nothing)
    (q' : Place) : lead.Opens p q' := by
  cases lead with
  | nothing => exact (hne rfl).elim
  | anything => trivial
  | literal text => exact h

/-- The definitions of a grammar and what they are made of. -/
inductive Compiler.Contains (c : Compiler) : Rule → Prop
  | definition {name : String} {r : Rule} : c.grammar.lookup name = some r → Contains c r
  | part {r part : Rule} : Contains c r → part ∈ r.shape.parts → Contains c part

theorem Compiler.Contains.mem {c : Compiler} {rules : List Rule}
    (hdefinitions : ∀ entry ∈ c.grammar, entry.2 ∈ rules)
    (hparts : ∀ r ∈ rules, ∀ part ∈ r.shape.parts, part ∈ rules) {r : Rule} (h : c.Contains r) :
    r ∈ rules := by
  induction h with
  | definition hlookup => exact hdefinitions _ (mem_of_lookup hlookup)
  | part _ hpart ih => exact hparts _ ih _ hpart

/-- Where a pattern of the grammar matches, something stands that its analysis gives. -/
def Compiler.PatternsLead (c : Compiler) : Prop :=
  ∀ r source pattern, c.Contains r → r.shape = .regex source →
    Pattern.ofString? source = some pattern → ∀ (cursor : Cursor) (result : String × Cursor),
      pattern.match? cursor = some result → .anything ∈ (Lead.ofPattern source).items ∨
        ∃ text, .literal text ∈ (Lead.ofPattern source).items ∧ text.toList <+: cursor.remaining

namespace Program

/-- A definition starts with a lead that opens a match from one place to another. -/
def Begins (context : LeadContext) (r : Rule) (p q : Place) : Prop :=
  ∃ depth lead, Lead.Starts context depth r lead ∧ lead.Opens p q

/-- Wherever a step matches, the match begins as a definition does. -/
def Leads (context : LeadContext) (step : Step) (r : Rule) : Prop :=
  ∀ s tokens t, step s = (some tokens, t) → Begins context r s.cursor.place t.cursor.place

variable {context : LeadContext}

theorem Begins.of_leaf {r : Rule} {lead : Lead} {p q : Place}
    (hlead : lead ∈ (Lead.ofShape r.shape).items) (h : lead.Opens p q) : Begins context r p q :=
  ⟨0, lead, .leaf hlead, h⟩

theorem Begins.of_empty {r : Rule} {p q : Place} (hshape : Lead.ofShape r.shape = .nothing)
    (h : q = p) : Begins context r p q :=
  ⟨0, .nothing, .leaf (hshape ▸ SortedSet.mem_single.2 rfl), h⟩

theorem Begins.of_unknown {r : Rule} {p q : Place} (hshape : Lead.ofShape r.shape = .anything) :
    Begins context r p q :=
  ⟨0, .anything, .leaf (hshape ▸ SortedSet.mem_single.2 rfl), trivial⟩

theorem Begins.alternative {r part : Rule} {p q : Place} (hpart : part ∈ Lead.alternatives r.shape)
    (h : Begins context part p q) : Begins context r p q := by
  obtain ⟨depth, lead, hstarts, hopens⟩ := h
  exact ⟨depth, lead, .alternative hpart hstarts, hopens⟩

/-- A lookahead goes back to where it began, so all the more it begins like what it looks for. -/
theorem Begins.restored {r : Rule} {p q : Place} (h : Begins context r p q) :
    Begins context r p p := by
  obtain ⟨depth, lead, hstarts, hopens⟩ := h
  by_cases hne : lead = .nothing
  · exact ⟨depth, lead, hstarts, hne ▸ rfl⟩
  · exact ⟨depth, lead, hstarts, hopens.congr hne p⟩

/-- A list begins as its first item does, or, where that was empty, as the rest of the list. -/
theorem begins_list {r : Rule} {items : List Rule} {p q : Place} (hshape : r.shape = .sequence items)
    (h : (q = p ∧ ∃ depth, ∀ x ∈ items, Lead.Starts context depth x .nothing) ∨
      ∃ depth front item back lead, items = front ++ item :: back ∧
        (∀ x ∈ front, Lead.Starts context depth x .nothing) ∧
        Lead.Starts context depth item lead ∧ lead ≠ .nothing ∧ lead.Opens p q) :
    Begins context r p q := by
  rcases h with ⟨heq, depth, hitems⟩ | ⟨depth, front, item, back, lead, rfl, hfront, hitem, hne, hopens⟩
  · exact ⟨depth, .nothing, .empty hshape hitems, heq⟩
  · exact ⟨depth, lead, .item hshape hfront hitem hne, hopens⟩

/-! ### Leaves -/

theorem prefix_of_literalStep {text : String} {s t : Running} {tokens : Chain}
    (h : literalStep text s = (some tokens, t)) : text.toList <+: s.cursor.place.rest := by
  rw [literalStep] at h
  split at h
  · cases h
  · rename_i moved heat
    obtain ⟨place, hplace, -⟩ := Option.map_eq_some_iff.1 heat
    exact ⟨place.rest, (Place.eat?_eq_some hplace).2.symm⟩

theorem exists_match_of_regexStep {pattern : Pattern} {s t : Running} {tokens : Chain}
    (h : regexStep pattern s = (some tokens, t)) :
    ∃ result, pattern.match? s.cursor = some result := by
  rw [regexStep] at h
  split at h
  · cases h
  · rename_i value moved hmatch
    exact ⟨(value, moved), hmatch⟩

theorem leads_literalStep {r : Rule} {text : String} (hshape : r.shape = .literal text)
    (hne : text ≠ "") : Leads context (literalStep text) r := by
  intro s tokens t hresult
  have hleaf : Lead.literal text ∈ (Lead.ofShape r.shape).items := by
    rw [hshape, Lead.ofShape, if_neg hne]
    exact SortedSet.mem_single.2 rfl
  exact .of_leaf hleaf (prefix_of_literalStep hresult)

theorem leads_regexStep {c : Compiler} (hpatterns : c.PatternsLead) {r : Rule} {source : String}
    {pattern : Pattern} (hcontains : c.Contains r) (hshape : r.shape = .regex source)
    (hpattern : Pattern.ofString? source = some pattern) :
    Leads c.leadContext (regexStep pattern) r := by
  intro s tokens t hresult
  obtain ⟨result, hmatch⟩ := exists_match_of_regexStep hresult
  have hleaf : Lead.ofShape r.shape = Lead.ofPattern source := by rw [hshape, Lead.ofShape]
  rcases hpatterns r source pattern hcontains hshape hpattern s.cursor result hmatch with
    hanything | ⟨text, htext, hprefix⟩
  · exact ⟨0, .anything, .leaf (hleaf ▸ hanything), trivial⟩
  · exact ⟨0, .literal text, .leaf (hleaf ▸ htext), hprefix⟩

theorem leads_eofStep {r : Rule} (hshape : r.shape = .eof) : Leads context eofStep r := by
  intro s tokens t hresult
  obtain rfl : s.reached s.position = t := congrArg Prod.snd hresult
  exact .of_empty (congrArg Lead.ofShape hshape) rfl

/-! ### Lists, alternatives and repetitions -/

section

variable {p : Program} {call : Nat → Step}

theorem begins_runItems {items : List Rule} {qs : List Parser} (hlength : items.length = qs.length)
    (hpairs : ∀ pair ∈ items.zip qs, Leads context (node p call pair.2) pair.1) {origin : Checkpoint}
    {found : List Chain} {s t : Running} {tokens : Chain}
    (h : runItems p call origin found qs s = (some tokens, t)) :
    (t.cursor.place = s.cursor.place ∧ ∃ depth, ∀ x ∈ items, Lead.Starts context depth x .nothing) ∨
      ∃ depth front item back lead, items = front ++ item :: back ∧
        (∀ x ∈ front, Lead.Starts context depth x .nothing) ∧
        Lead.Starts context depth item lead ∧ lead ≠ .nothing ∧
        lead.Opens s.cursor.place t.cursor.place := by
  induction items generalizing qs found s with
  | nil =>
    cases qs with
    | cons q qs => cases hlength
    | nil =>
      rw [runItems] at h
      cases h
      exact .inl ⟨rfl, 0, fun x hx => by cases hx⟩
  | cons r items ih =>
    cases qs with
    | nil => cases hlength
    | cons q qs =>
      rw [runItems] at h
      dsimp only at h
      rcases hfirst : node p call q s with ⟨_ | first, next⟩
      · rw [hfirst] at h
        cases h
      rw [hfirst] at h
      obtain ⟨depth, lead, hstarts, hopens⟩ := hpairs (r, q) List.mem_cons_self s first next hfirst
      by_cases hne : lead = .nothing
      · have hplace : next.cursor.place = s.cursor.place := by
          rw [hne] at hopens
          exact hopens
        rw [hne] at hstarts
        have hrest := ih (Nat.succ.inj hlength)
          (fun pair hpair => hpairs pair (List.mem_cons_of_mem _ hpair)) h
        rw [hplace] at hrest
        rcases hrest with ⟨heq, more, hitems⟩ |
          ⟨more, front, item, back, lead', rfl, hfront, hitem, hne', hopens'⟩
        · refine .inl ⟨heq, max depth more, fun x hx => ?_⟩
          rcases List.mem_cons.1 hx with rfl | hx
          · exact hstarts.mono (Nat.le_max_left _ _)
          · exact (hitems x hx).mono (Nat.le_max_right _ _)
        · refine .inr ⟨max depth more, r :: front, item, back, lead', rfl, fun x hx => ?_,
            hitem.mono (Nat.le_max_right _ _), hne', hopens'⟩
          rcases List.mem_cons.1 hx with rfl | hx
          · exact hstarts.mono (Nat.le_max_left _ _)
          · exact (hfront x hx).mono (Nat.le_max_right _ _)
      · exact .inr ⟨depth, [], r, items, lead, rfl, fun x hx => (List.not_mem_nil hx).elim, hstarts, hne,
          hopens.congr hne _⟩

theorem begins_runBranches (hscripts : p.scripts.OnlyMoves) (hcall : ∀ id, Backtracks (call id))
    {rules : List Rule} {branches : List (Option BitSet × Parser)}
    (hlength : rules.length = branches.length)
    (hpairs : ∀ pair ∈ rules.zip branches, Leads context (node p call pair.2.2) pair.1) {c : Cursor}
    {s t : Running} (hc : c.Returns s.cursor) {tokens : Chain}
    (h : runBranches p call c.checkpoint branches s = (some tokens, t)) :
    ∃ r ∈ rules, Begins context r c.place t.cursor.place := by
  induction rules generalizing branches s with
  | nil =>
    cases branches with
    | cons branch branches => cases hlength
    | nil =>
      rw [runBranches] at h
      cases h
  | cons r rules ih =>
    cases branches with
    | nil => cases hlength
    | cons branch branches =>
      obtain ⟨first, q⟩ := branch
      have hcursor := cursor_worthTrying p first s
      have later : ∀ {s : Running}, c.Returns s.cursor →
          runBranches p call c.checkpoint branches s = (some tokens, t) →
          ∃ r' ∈ r :: rules, Begins context r' c.place t.cursor.place := by
        intro s hs h
        obtain ⟨r', hr', hbegins⟩ := ih (Nat.succ.inj hlength)
          (fun pair hpair => hpairs pair (List.mem_cons_of_mem _ hpair)) hs h
        exact ⟨r', List.mem_cons_of_mem _ hr', hbegins⟩
      rw [runBranches] at h
      dsimp only at h
      rcases htry : p.worthTrying first s with ⟨_ | _, tried⟩
      · rw [htry] at h hcursor
        exact later (hcursor ▸ hc) h
      · rw [htry] at h hcursor
        have htried : c.Returns tried.cursor := hcursor ▸ hc
        have hbranch := (backtracks_node hscripts hcall q tried).extended
        dsimp only at h
        rcases hresult : node p call q tried with ⟨_ | found, next⟩
        · rw [hresult] at h hbranch
          exact later (htried.toExtends.trans hbranch).returns_restore h
        · rw [hresult] at h
          cases h
          have hbegins := hpairs (r, first, q) List.mem_cons_self tried _ _ hresult
          rw [htried.place] at hbegins
          exact ⟨r, List.mem_cons_self, hbegins⟩

theorem begins_repeatStep {step : Step} {r : Rule} (h : Leads context step r) :
    Leads context (repeatStep step) r := by
  intro s tokens t hresult
  rw [repeatStep] at hresult
  rcases hfirst : step s with ⟨_ | first, next⟩
  · rw [hfirst] at hresult
    cases hresult
  rw [hfirst] at hresult
  obtain ⟨depth, lead, hstarts, hopens⟩ := h s first next hfirst
  by_cases hne : lead = .nothing
  · have hplace : next.cursor.place = s.cursor.place := by
      rw [hne] at hopens
      exact hopens
    have hposition : ¬ s.position < next.position := by
      rw [Running.position, Running.position, Cursor.position, Cursor.position, hplace]
      exact Nat.lt_irrefl _
    dsimp only at hresult
    rw [repeatFrom] at hresult
    dsimp only at hresult
    rw [if_neg hposition] at hresult
    cases hresult
    exact ⟨depth, lead, hstarts, hopens⟩
  · exact ⟨depth, lead, hstarts, hopens.congr hne _⟩

/-! ### Lookaheads and options -/

section

variable {q : Parser} {r part : Rule} (hq : Backtracks (node p call q))
include hq

theorem leads_ahead (hshape : r.shape = .ahead part) (hpart : Leads context (node p call q) part) :
    Leads context (node p call (.ahead q)) r := by
  intro s tokens t hresult
  have hback := (hq s).extended.returns_restore
  rw [node] at hresult
  dsimp only at hresult
  rcases hinner : node p call q s with ⟨_ | found, next⟩
  · rw [hinner] at hresult
    cases hresult
  rw [hinner] at hresult hback
  cases hresult
  have hplace : (next.restore s.cursor.checkpoint).cursor.place = s.cursor.place := hback.place
  rw [hplace]
  exact (hpart s found next hinner).restored.alternative (hshape ▸ List.mem_cons_self)

theorem leads_notAhead (hshape : r.shape = .notAhead part) :
    Leads context (node p call (.notAhead q)) r := by
  intro s tokens t hresult
  have hback := (hq s).extended.returns_restore
  rw [node] at hresult
  have ht : (node p call q s).2.restore s.cursor.checkpoint = t := congrArg Prod.snd hresult
  exact .of_empty (congrArg Lead.ofShape hshape) (ht ▸ hback.place)

theorem leads_optional (hshape : r.shape = .optional part)
    (hpart : Leads context (node p call q) part) : Leads context (node p call (.optional q)) r := by
  intro s tokens t hresult
  have hback := (hq s).extended.returns_restore
  rw [node] at hresult
  dsimp only at hresult
  rcases hinner : node p call q s with ⟨_ | found, next⟩
  · rw [hinner] at hresult hback
    have ht : next.restore s.cursor.checkpoint = t := congrArg Prod.snd hresult
    exact .of_empty (congrArg Lead.ofShape hshape) (ht ▸ hback.place)
  · rw [hinner] at hresult
    cases hresult
    exact (hpart s tokens t hinner).alternative (hshape ▸ List.mem_cons_self)

end

/-! ### Trees -/

theorem mem_hidden_of_lookup {c : Compiler} {name : String} {q : Parser}
    (h : c.overrides.lookup name = some q) : name ∈ c.leadContext.hidden :=
  List.mem_map.2 ⟨(name, q), mem_of_lookup h, rfl⟩

theorem not_mem_hidden_of_lookup {c : Compiler} {name : String}
    (h : c.overrides.lookup name = none) : name ∉ c.leadContext.hidden := by
  intro hmem
  obtain ⟨entry, hentry, rfl⟩ := List.mem_map.1 hmem
  have hne := List.lookup_eq_none_iff.1 h entry hentry
  simp at hne

theorem Begins.named {c : Compiler} {name : String} {definition : Rule} {p q : Place}
    (hdefinition : c.definition? name = some definition)
    (h : Begins c.leadContext definition p q) : Begins c.leadContext (.text name) p q := by
  obtain ⟨hreplaced, hlookup⟩ := Compiler.lookup_of_definition? hdefinition
  obtain ⟨depth, lead, hstarts, hopens⟩ := h
  exact ⟨depth + 1, lead, .named (not_mem_hidden_of_lookup hreplaced) hlookup hstarts, hopens⟩

theorem leads_undefined {c : Compiler} {name : String} {q : Parser}
    (hreplaced : c.overrides.lookup name = none) (hlookup : c.grammar.lookup name = none)
    (hleaf : c.undefined? name = some q) : Leads c.leadContext (node p call q) (.text name) := by
  have hname := not_mem_hidden_of_lookup hreplaced
  intro s tokens t hresult
  have begins : ∀ {lead : Lead}, lead ∈ (Lead.ofUndefined c.leadContext name).items →
      lead.Opens s.cursor.place t.cursor.place →
      Begins c.leadContext (.text name) s.cursor.place t.cursor.place :=
    fun hlead hopens => ⟨0, _, .undefined hname hlookup hlead, hopens⟩
  rw [Compiler.undefined?] at hleaf
  rw [Lead.ofUndefined] at begins
  split at hleaf
  · rename_i heof
    cases hleaf
    rw [if_pos heof] at begins
    obtain rfl : s.reached s.position = t := congrArg Prod.snd hresult
    exact begins (SortedSet.mem_single.2 rfl) rfl
  rename_i heof
  rw [if_neg heof] at begins
  split at hleaf
  · rename_i hindent
    cases hleaf
    rw [if_pos hindent] at begins
    exact begins (SortedSet.mem_single.2 rfl) trivial
  rename_i hindent
  rw [if_neg hindent] at begins
  split at hleaf
  · rename_i hbare
    cases hleaf
    have hcontext : c.leadContext.bareLiterals = true := hbare.1
    rw [if_pos hcontext] at begins
    rw [node] at hresult
    exact begins (SortedSet.mem_single.2 rfl) (prefix_of_literalStep hresult)
  · cases hleaf

/-- A parser begins as its definition does, if the rules that it calls begin as theirs do. -/
theorem leads_node {c : Compiler} (hpatterns : c.PatternsLead) (hscripts : p.scripts.OnlyMoves)
    (hcall : ∀ id, Backtracks (call id)) {names : List String}
    {lead : Rule → Option BitSet → Prop}
    (hleads : ∀ id name definition, names[id]? = some name → c.grammar.lookup name = some definition →
      Leads c.leadContext (call id) definition)
    {r : Rule} {q : Parser} (hcontains : c.Contains r) (h : c.Renders names lead r q) :
    Leads c.leadContext (node p call q) r := by
  induction h with
  | replaced hlookup =>
    exact fun s tokens t _ => ⟨0, .anything, .hidden (mem_hidden_of_lookup hlookup), trivial⟩
  | called hdefinition _ hid =>
    intro s tokens t hresult
    rw [node] at hresult
    have hlookup := (Compiler.lookup_of_definition? hdefinition).2
    exact .named hdefinition (hleads _ _ _ hid hlookup s tokens t hresult)
  | inlined hdefinition _ ih =>
    have hlookup := (Compiler.lookup_of_definition? hdefinition).2
    exact fun s tokens t hresult =>
      .named hdefinition (ih (.definition hlookup) s tokens t hresult)
  | undefined hreplaced hlookup hleaf => exact leads_undefined hreplaced hlookup hleaf
  | @sequence r items qs hshape hlength _ ih =>
    intro s tokens t hresult
    rw [node] at hresult
    refine begins_list hshape (begins_runItems hlength (fun pair hpair => ?_) hresult)
    exact ih pair hpair (hcontains.part (hshape ▸ (List.of_mem_zip hpair).1))
  | @choice r rules branches hshape hlength _ _ ih =>
    intro s tokens t hresult
    rw [node] at hresult
    obtain ⟨part, hpart, hbegins⟩ := begins_runBranches hscripts hcall hlength
      (fun pair hpair => ih pair hpair (hcontains.part (hshape ▸ (List.of_mem_zip hpair).1)))
      (.refl s.cursor) hresult
    exact hbegins.alternative (hshape ▸ hpart)
  | @repeated r part q hshape _ ih =>
    have hpart := ih (hcontains.part (hshape ▸ List.mem_cons_self))
    intro s tokens t hresult
    rw [node] at hresult
    exact (begins_repeatStep hpart s tokens t hresult).alternative (hshape ▸ List.mem_cons_self)
  | @ahead r part q hshape _ ih =>
    have hpart := ih (hcontains.part (hshape ▸ List.mem_cons_self))
    exact leads_ahead (backtracks_node hscripts hcall q) hshape hpart
  | @notAhead r part q hshape _ _ => exact leads_notAhead (backtracks_node hscripts hcall q) hshape
  | @optional r part q hshape _ ih =>
    have hpart := ih (hcontains.part (hshape ▸ List.mem_cons_self))
    exact leads_optional (backtracks_node hscripts hcall q) hshape hpart
  | literal hshape hne =>
    rw [node]
    exact leads_literalStep hshape hne
  | regex hshape hpattern =>
    rw [node]
    exact leads_regexStep hpatterns hcontains hshape hpattern
  | eof hshape =>
    rw [node]
    exact leads_eofStep hshape
  | indent hshape | script hshape =>
    exact fun s tokens t _ => .of_unknown (congrArg Lead.ofShape hshape)
  | @annotated r value q hshape _ ih =>
    have hvalue := ih (hcontains.part (hshape ▸ List.mem_cons_self))
    exact fun s tokens t hresult =>
      (hvalue s tokens t hresult).alternative (hshape ▸ List.mem_cons_self)

end

/-! ### Rules -/

/-- A rule begins as its definition does, however many more may be nested inside of it. -/
theorem leads_callRule {c : Compiler} {p : Program} (hpatterns : c.PatternsLead)
    (hscripts : p.scripts.OnlyMoves) {lead : Rule → Option BitSet → Prop}
    (hdefines : ∀ rule ∈ p.rules, c.Defines (p.rules.map CompiledRule.name) lead rule) (room : Nat) :
    ∀ id name definition, (p.rules.map CompiledRule.name)[id]? = some name →
      c.grammar.lookup name = some definition → Leads c.leadContext (p.callRule room id) definition := by
  induction room with
  | zero =>
    intro id name definition _ _ s tokens t hresult
    rw [callRule] at hresult
    dsimp only at hresult
    split at hresult <;> cases hresult
  | succ room ih =>
    intro id name definition hname hlookup s tokens t hresult
    rw [List.getElem?_map] at hname
    obtain ⟨rule, hrule, rfl⟩ := Option.map_eq_some_iff.1 hname
    obtain ⟨_, hfound, hrenders⟩ := hdefines rule (List.mem_of_getElem? hrule)
    cases hlookup.symm.trans hfound
    have hbody := leads_node hpatterns hscripts (backtracks_callRule hscripts room) ih
      (.definition hlookup) hrenders
    rw [callRule] at hresult
    dsimp only at hresult
    rw [hrule] at hresult
    dsimp only at hresult
    rcases hinner : node p (p.callRule room) rule.body
      (p.traced (p.depthLimit - (room + 1)) ("> " ++ rule.name ++ " @ " ++ toString s.position) s)
      with ⟨_ | found, next⟩
    · rw [hinner] at hresult
      cases hresult
    rw [hinner] at hresult
    cases hresult
    have hbegins := hbody _ _ _ hinner
    rw [cursor_traced] at hbegins
    rw [cursor_traced]
    exact hbegins

end Program

end PegGrammar
