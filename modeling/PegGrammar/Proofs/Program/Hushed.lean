import PegGrammar.Proofs.Program.Leading
import PegGrammar.Proofs.Program.Progress

/-!
# Looking no further

A run that is at a place where nothing stands that a definition starts with tries the definition there and gets
nowhere: it looks no further than it looked before, whether the definition matches nothing or does not match. The
one thing that can look further is a `$not`, because what it looks for is not among what a definition starts
with. So nothing is said of definitions that come to such a lookahead before they have matched any text.
-/

namespace PegGrammar

/-- A definition comes to a `$not` of something that starts with text before it has matched any text. -/
inductive Lead.Peeks (context : LeadContext) : Rule → Prop
  | text {depth : Nat} {r part : Rule} {lead : Lead} : r.shape = .notAhead part →
      Starts context depth part lead → lead ≠ .nothing → Peeks context r
  | negated {r part : Rule} : r.shape = .notAhead part → Peeks context part → Peeks context r
  | alternative {r part : Rule} : part ∈ alternatives r.shape → Peeks context part → Peeks context r
  | item {depth : Nat} {r item : Rule} {front back : List Rule} :
      r.shape = .sequence (front ++ item :: back) → (∀ x ∈ front, Starts context depth x .nothing) →
      Peeks context item → Peeks context r
  | named {name : String} {definition : Rule} : name ∉ context.hidden →
      context.grammar.lookup name = some definition → Peeks context definition → Peeks context (.text name)

theorem Lead.Peeks.of_definition {c : Compiler} {name : String} {definition : Rule}
    (h : Lead.Peeks c.leadContext definition) (hdefinition : c.definition? name = some definition) :
    Lead.Peeks c.leadContext (.text name) := by
  obtain ⟨hreplaced, hlookup⟩ := Compiler.lookup_of_definition? hdefinition
  exact .named (Program.not_mem_hidden_of_lookup hreplaced) hlookup h

theorem Running.position_of_place {s t : Running} (h : s.cursor.place = t.cursor.place) :
    s.position = t.position :=
  congrArg Place.offset h

namespace Program

/-- Nothing stands at a place that a definition starts with. -/
def Silent (context : LeadContext) (r : Rule) (place : Place) : Prop :=
  ∀ depth lead, Lead.Starts context depth r lead →
    lead = .nothing ∨ ∃ text, lead = .literal text ∧ ¬ text.toList <+: place.rest

/-- Where nothing stands that a definition starts with, a step looks no further than the run did before. -/
def Hushed (context : LeadContext) (step : Step) (r : Rule) : Prop :=
  ∀ s, Silent context r s.cursor.place → s.position ≤ s.report.furthest →
    (step s).2.report.furthest = s.report.furthest

/-- A step that gets as far as where it begins and where it ends. -/
def Touches (step : Step) : Prop :=
  ∀ s, s.position ≤ s.report.furthest →
    (step s).2.report.furthest = max s.report.furthest (step s).2.position

/-! ### Leaves -/

private theorem touches_match {s : Running} (h : s.position ≤ s.report.furthest) (c : Cursor) :
    (((s.reached s.position).movedTo c).reached c.position).report.furthest =
      max s.report.furthest c.position := by
  change max (max s.report.furthest s.position) c.position = _
  rw [Nat.max_eq_left h]

theorem touches_literalStep (text : String) : Touches (literalStep text) := by
  intro s h
  rw [literalStep]
  split
  · rfl
  · exact touches_match h _

theorem touches_regexStep (pattern : Pattern) : Touches (regexStep pattern) := by
  intro s h
  rw [regexStep]
  split
  · rfl
  · exact touches_match h _

theorem touches_eofStep : Touches eofStep := fun _ _ => rfl

theorem touches_indentation : Touches indentation := by
  intro s h
  rw [indentation]
  dsimp only
  split
  · exact touches_match h _
  split
  · exact touches_match h _
  split
  · exact touches_match h _
  · rfl

theorem touches_scriptStep {p : Program} (hmoves : p.scripts.OnlyMoves) (source : String) (handle : Nat) :
    Touches (p.scriptStep source handle) := by
  intro s h
  have hreturned := (backtracks_scriptStep hmoves source handle s).returned
  rw [scriptStep] at hreturned ⊢
  dsimp only at hreturned ⊢
  split
  · rfl
  · rename_i reason moved hrun
    rw [hrun] at hreturned
    have hplace := (hreturned rfl).place
    refine (Nat.max_eq_left ?_).symm
    rw [Running.position_of_place hplace]
    exact h

/-! ### Silence -/

variable {context : LeadContext}

theorem Silent.stays {r : Rule} {p q : Place} (h : Silent context r p) (hbegins : Begins context r p q) :
    q = p ∧ ∃ depth, Lead.Starts context depth r .nothing := by
  obtain ⟨depth, lead, hstarts, hopens⟩ := hbegins
  rcases h depth lead hstarts with rfl | ⟨text, rfl, hno⟩
  · exact ⟨hopens, depth, hstarts⟩
  · exact (hno hopens).elim

theorem Silent.alternative {r part : Rule} {place : Place} (h : Silent context r place)
    (hpart : part ∈ Lead.alternatives r.shape) : Silent context part place :=
  fun depth lead hstarts => h depth lead (.alternative hpart hstarts)

theorem Silent.item {r item : Rule} {front back : List Rule} {place : Place} {depth : Nat}
    (h : Silent context r place) (hshape : r.shape = .sequence (front ++ item :: back))
    (hfront : ∀ x ∈ front, Lead.Starts context depth x .nothing) : Silent context item place := by
  intro more lead hstarts
  by_cases hne : lead = .nothing
  · exact .inl hne
  · refine h (max depth more) lead (.item hshape (fun x hx => ?_) (hstarts.mono (Nat.le_max_right _ _)) hne)
    exact (hfront x hx).mono (Nat.le_max_left _ _)

theorem Silent.not_starts_anything {r : Rule} {place : Place} (h : Silent context r place) (depth : Nat) :
    ¬ Lead.Starts context depth r .anything := by
  intro hstarts
  rcases h depth _ hstarts with heq | ⟨text, heq, -⟩
  · cases heq
  · cases heq

theorem Silent.named {c : Compiler} {name : String} {definition : Rule} {place : Place}
    (h : Silent c.leadContext (.text name) place) (hdefinition : c.definition? name = some definition) :
    Silent c.leadContext definition place := by
  obtain ⟨hreplaced, hlookup⟩ := Compiler.lookup_of_definition? hdefinition
  exact fun depth lead hstarts =>
    h (depth + 1) lead (.named (not_mem_hidden_of_lookup hreplaced) hlookup hstarts)

theorem silent_of_not_peeks {r part : Rule} (hshape : r.shape = .notAhead part)
    (h : ¬ Lead.Peeks context r) (place : Place) : Silent context part place := by
  intro depth lead hstarts
  by_cases hne : lead = .nothing
  · exact .inl hne
  · exact (h (.text hshape hstarts hne)).elim

/-- In silence a step ends where it began, whether or not it matches. -/
theorem Leads.place_of_silent {step : Step} {r : Rule} (hleads : Leads context step r)
    (hstep : Backtracks step) {s : Running} (hsilent : Silent context r s.cursor.place) :
    (step s).2.cursor.place = s.cursor.place := by
  have hreturned := (hstep s).returned
  rcases hresult : step s with ⟨_ | tokens, next⟩
  · rw [hresult] at hreturned
    exact (hreturned rfl).place
  · exact (hsilent.stays (hleads s tokens next hresult)).1

theorem Touches.hushed {step : Step} {r : Rule} (h : Touches step) (hstep : Backtracks step)
    (hleads : Leads context step r) : Hushed context step r := by
  intro s hsilent hposition
  have hplace := hleads.place_of_silent hstep hsilent
  rw [h s hposition, Running.position_of_place hplace]
  exact Nat.max_eq_left hposition

/-! ### Lists, alternatives and repetitions -/

section

variable {p : Program} {call : Nat → Step}

theorem hushed_runItems {r : Rule} {front rest : List Rule} {qs : List Parser}
    (hshape : r.shape = .sequence (front ++ rest)) (hpeeks : ¬ Lead.Peeks context r) (depth : Nat)
    (hfront : ∀ x ∈ front, Lead.Starts context depth x .nothing) (hlength : rest.length = qs.length)
    (hleads : ∀ pair ∈ rest.zip qs, Leads context (node p call pair.2) pair.1)
    (hhushed : ∀ pair ∈ rest.zip qs, ¬ Lead.Peeks context pair.1 →
      Hushed context (node p call pair.2) pair.1)
    (origin : Checkpoint) (found : List Chain) {s : Running} (hsilent : Silent context r s.cursor.place)
    (hposition : s.position ≤ s.report.furthest) :
    (runItems p call origin found qs s).2.report.furthest = s.report.furthest := by
  induction rest generalizing front qs depth found s with
  | nil =>
    cases qs with
    | nil =>
      rw [runItems]
    | cons q qs => cases hlength
  | cons item rest ih =>
    cases qs with
    | nil => cases hlength
    | cons q qs =>
      have hitem : Silent context item s.cursor.place := hsilent.item hshape hfront
      have hnone : ¬ Lead.Peeks context item := fun h => hpeeks (.item hshape hfront h)
      have hfurthest := hhushed (item, q) List.mem_cons_self hnone s hitem hposition
      rw [runItems]
      dsimp only at hfurthest ⊢
      rcases hresult : node p call q s with ⟨_ | tokens, next⟩
      · rw [hresult] at hfurthest
        exact hfurthest
      · obtain ⟨hplace, more, hnothing⟩ :=
          hitem.stays (hleads (item, q) List.mem_cons_self s tokens next hresult)
        rw [hresult] at hfurthest
        have hfront' : ∀ x ∈ front ++ [item], Lead.Starts context (max depth more) x .nothing := by
          intro x hx
          rcases List.mem_append.1 hx with hx | hx
          · exact (hfront x hx).mono (Nat.le_max_left _ _)
          · exact List.mem_singleton.1 hx ▸ hnothing.mono (Nat.le_max_right _ _)
        have hposition' : next.position ≤ next.report.furthest := by
          rw [Running.position_of_place hplace, hfurthest]
          exact hposition
        have hrest := ih (hshape.trans (by simp)) _ hfront' (Nat.succ.inj hlength)
          (fun pair hpair => hleads pair (List.mem_cons_of_mem _ hpair))
          (fun pair hpair => hhushed pair (List.mem_cons_of_mem _ hpair)) (tokens :: found)
          (hplace ▸ hsilent) hposition'
        exact hrest.trans hfurthest

theorem hushed_runBranches (hscripts : p.scripts.OnlyMoves) (hcall : ∀ id, Backtracks (call id))
    {r : Rule} {branches : List (Option BitSet × Parser)}
    (hhushed : ∀ branch ∈ branches, Hushed context (node p call branch.2) r) {c : Cursor}
    (hsilent : Silent context r c.place) {s : Running} (hc : c.Returns s.cursor)
    (hposition : s.position ≤ s.report.furthest) :
    (runBranches p call c.checkpoint branches s).2.report.furthest = s.report.furthest := by
  induction branches generalizing s with
  | nil =>
    rw [runBranches]
  | cons branch branches ih =>
    obtain ⟨first, q⟩ := branch
    obtain ⟨hbranch, hrest⟩ := List.forall_mem_cons.1 hhushed
    have hcursor := cursor_worthTrying p first s
    have hreport := report_worthTrying p first s
    rw [runBranches]
    dsimp only
    generalize p.worthTrying first s = worth at hcursor hreport ⊢
    obtain ⟨tries, tried⟩ := worth
    have htried : c.Returns tried.cursor := hcursor ▸ hc
    have hposition' : tried.position ≤ tried.report.furthest := by
      rw [Running.position, hcursor, hreport]
      exact hposition
    rw [← hreport]
    cases tries with
    | false => exact ih hrest htried hposition'
    | true =>
      have hfurthest := hbranch tried (htried.place ▸ hsilent) hposition'
      have hback := htried.toExtends.trans (backtracks_node hscripts hcall q tried).extended
      dsimp only at hfurthest ⊢
      generalize node p call q tried = result at hfurthest hback ⊢
      rcases result with ⟨_ | tokens, next⟩
      · have hreturned : c.Returns (next.restore c.checkpoint).cursor := hback.returns_restore
        have hplace := hreturned.place.trans htried.place.symm
        refine (ih hrest hreturned ?_).trans hfurthest
        change (next.restore c.checkpoint).position ≤ next.report.furthest
        rw [Running.position_of_place hplace, hfurthest]
        exact hposition'
      · exact hfurthest

theorem hushed_repeatStep {step : Step} {r : Rule} (h : Hushed context step r)
    (hstep : Backtracks step) (hleads : Leads context step r) : Hushed context (repeatStep step) r := by
  intro s hsilent hposition
  have hfurthest := h s hsilent hposition
  have hplace := hleads.place_of_silent hstep hsilent
  rw [repeatStep]
  generalize step s = result at hfurthest hplace ⊢
  rcases result with ⟨_ | tokens, next⟩
  · exact hfurthest
  · have hend : ¬ s.position < next.position := by
      rw [Running.position_of_place hplace]
      exact Nat.lt_irrefl _
    dsimp only
    rw [repeatFrom]
    dsimp only
    rw [if_neg hend]
    exact hfurthest

/-! ### Trees -/

/-- A parser looks no further where nothing stands that its definition starts with, if the rules that it calls
do not either. -/
theorem hushed_node {c : Compiler} (hpatterns : c.PatternsLead) (hscripts : p.scripts.OnlyMoves)
    (hcall : ∀ id, Backtracks (call id)) {names : List String} {lead : Rule → Option BitSet → Prop}
    (hleads : ∀ id name definition, names[id]? = some name → c.grammar.lookup name = some definition →
      Leads c.leadContext (call id) definition)
    (hhushed : ∀ id name definition, names[id]? = some name → c.grammar.lookup name = some definition →
      ¬ Lead.Peeks c.leadContext definition → Hushed c.leadContext (call id) definition)
    {r : Rule} {q : Parser} (hcontains : c.Contains r) (h : c.Renders names lead r q)
    (hpeeks : ¬ Lead.Peeks c.leadContext r) : Hushed c.leadContext (node p call q) r := by
  have hbacktracks := backtracks_node hscripts hcall
  have leads : ∀ {r q}, c.Contains r → c.Renders names lead r q → Leads c.leadContext (node p call q) r :=
    leads_node hpatterns hscripts hcall hleads
  have leaf : ∀ {r q}, c.Contains r → c.Renders names lead r q → Touches (node p call q) →
      Hushed c.leadContext (node p call q) r :=
    fun hcontains hrenders htouches => htouches.hushed (hbacktracks _) (leads hcontains hrenders)
  have inside : ∀ {r part q}, c.Contains r → ¬ Lead.Peeks c.leadContext r →
      part ∈ Lead.alternatives r.shape →
      (c.Contains part → ¬ Lead.Peeks c.leadContext part → Hushed c.leadContext (node p call q) part) →
      Hushed c.leadContext (node p call q) r := by
    intro r part q hcontains hpeeks hpart ih
    have hbody := ih (hcontains.part (Lead.alternatives_subset _ hpart))
      (fun h => hpeeks (.alternative hpart h))
    exact fun s hsilent hposition => hbody s (hsilent.alternative hpart) hposition
  induction h with
  | replaced hlookup =>
    exact fun s hsilent _ => (hsilent.not_starts_anything 0 (.hidden (mem_hidden_of_lookup hlookup))).elim
  | called hdefinition _ hid =>
    intro s hsilent hposition
    have hlookup := (Compiler.lookup_of_definition? hdefinition).2
    rw [node]
    exact hhushed _ _ _ hid hlookup (fun h => hpeeks (h.of_definition hdefinition)) s
      (hsilent.named hdefinition) hposition
  | inlined hdefinition _ ih =>
    have hbody := ih (.definition (Compiler.lookup_of_definition? hdefinition).2)
      (fun h => hpeeks (h.of_definition hdefinition))
    exact fun s hsilent hposition => hbody s (hsilent.named hdefinition) hposition
  | undefined hreplaced hlookup hleaf =>
    have hleads := leads hcontains (.undefined hreplaced hlookup hleaf)
    rcases Compiler.leaf_of_undefined? hleaf with rfl | rfl | rfl
    · exact Touches.hushed touches_eofStep (hbacktracks _) hleads
    · exact Touches.hushed touches_indentation (hbacktracks _) hleads
    · exact Touches.hushed (touches_literalStep _) (hbacktracks _) hleads
  | @sequence r items qs hshape hlength hrenders ih =>
    have hitems : ∀ pair ∈ items.zip qs, c.Contains pair.1 :=
      fun pair hpair => hcontains.part (hshape ▸ (List.of_mem_zip hpair).1)
    intro s hsilent hposition
    rw [node]
    exact hushed_runItems (show r.shape = .sequence ([] ++ items) from hshape) hpeeks 0
      (fun x hx => (List.not_mem_nil hx).elim) hlength
      (fun pair hpair => leads (hitems pair hpair) (hrenders pair hpair))
      (fun pair hpair => ih pair hpair (hitems pair hpair)) _ [] hsilent hposition
  | @choice r rules branches hshape hlength _ _ ih =>
    have halternatives : Lead.alternatives r.shape = rules := congrArg Lead.alternatives hshape
    have hbranches : ∀ branch ∈ branches, Hushed c.leadContext (node p call branch.2) r := by
      intro branch hbranch
      obtain ⟨rule, hpair⟩ := Compiler.exists_mem_zip hlength hbranch
      exact inside hcontains hpeeks (halternatives ▸ (List.of_mem_zip hpair).1) (ih _ hpair)
    intro s hsilent hposition
    rw [node]
    exact hushed_runBranches hscripts hcall hbranches hsilent (.refl s.cursor) hposition
  | @repeated r part q hshape hrenders ih =>
    have hpart : part ∈ Lead.alternatives r.shape := hshape ▸ List.mem_cons_self
    have hleads := leads (hcontains.part (Lead.alternatives_subset _ hpart)) hrenders
    rw [node]
    exact hushed_repeatStep (inside hcontains hpeeks hpart ih) (hbacktracks q)
      (fun s tokens t hresult => (hleads s tokens t hresult).alternative hpart)
  | @ahead r part q hshape _ ih =>
    intro s hsilent hposition
    rw [node]
    exact inside hcontains hpeeks (hshape ▸ List.mem_cons_self) ih s hsilent hposition
  | @notAhead r part q hshape _ ih =>
    have hbody := ih (hcontains.part (hshape ▸ List.mem_cons_self)) (fun h => hpeeks (.negated hshape h))
    intro s _ hposition
    rw [node]
    exact hbody s (silent_of_not_peeks hshape hpeeks _) hposition
  | @optional r part q hshape _ ih =>
    intro s hsilent hposition
    have hfurthest := inside hcontains hpeeks (hshape ▸ List.mem_cons_self) ih s hsilent hposition
    rw [node]
    dsimp only
    generalize node p call q s = result at hfurthest ⊢
    rcases result with ⟨_ | tokens, next⟩
    all_goals exact hfurthest
  | literal hshape hne => exact leaf hcontains (.literal hshape hne) (touches_literalStep _)
  | regex hshape hpattern => exact leaf hcontains (.regex hshape hpattern) (touches_regexStep _)
  | eof hshape => exact leaf hcontains (.eof hshape) touches_eofStep
  | indent hshape => exact leaf hcontains (.indent hshape) touches_indentation
  | script hshape hhandle =>
    exact leaf hcontains (.script hshape hhandle) (touches_scriptStep hscripts _ _)
  | annotated hshape _ ih => exact inside hcontains hpeeks (hshape ▸ List.mem_cons_self) ih

end

/-! ### Rules -/

/-- A rule looks no further where nothing stands that its definition starts with, however many more may be
nested inside of it. -/
theorem hushed_callRule {c : Compiler} {p : Program} (hpatterns : c.PatternsLead)
    (hscripts : p.scripts.OnlyMoves) {lead : Rule → Option BitSet → Prop}
    (hdefines : ∀ rule ∈ p.rules, c.Defines (p.rules.map CompiledRule.name) lead rule) (room : Nat) :
    ∀ id name definition, (p.rules.map CompiledRule.name)[id]? = some name →
      c.grammar.lookup name = some definition → ¬ Lead.Peeks c.leadContext definition →
        Hushed c.leadContext (p.callRule room id) definition := by
  induction room with
  | zero =>
    intro id name definition _ _ _ s _ _
    rw [callRule]
    dsimp only
    split
    · rfl
    · exact p.furthest_tooDeep _ s
  | succ room ih =>
    intro id name definition hname hlookup hpeeks s hsilent hposition
    rw [List.getElem?_map] at hname
    obtain ⟨rule, hrule, rfl⟩ := Option.map_eq_some_iff.1 hname
    obtain ⟨_, hfound, hrenders⟩ := hdefines rule (List.mem_of_getElem? hrule)
    cases hlookup.symm.trans hfound
    have hbody := hushed_node hpatterns hscripts (backtracks_callRule hscripts room)
      (leads_callRule hpatterns hscripts hdefines room) ih (.definition hlookup) hrenders hpeeks
    have hentered : ∀ depth message,
        (node p (p.callRule room) rule.body (p.traced depth message s)).2.report.furthest =
          s.report.furthest := by
      intro depth message
      have hcursor := cursor_traced p depth message s
      have hfurthest := hbody (p.traced depth message s)
      rw [Running.position_of_place (congrArg Cursor.place hcursor), hcursor, report_traced] at hfurthest
      exact hfurthest hsilent hposition
    rw [callRule]
    dsimp only
    rw [hrule]
    dsimp only
    rw [report_traced]
    exact hentered _ _

end Program

end PegGrammar
