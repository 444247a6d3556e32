import PegGrammar.Proofs.Compile.Guarding
import PegGrammar.Proofs.Compile.Registration
import PegGrammar.Proofs.Program.Skipping

/-!
# Where the sets of alternatives come from

Every set that an alternative of a program carries was made when the alternative was compiled: it has the numbers
that the literals of its first set got then. The registry goes on to grow until the last alternative is compiled,
and only then is a program made of it. Numbers that were given stay, whatever the order, so the sets mean in the end
what they meant when they were made.

A session is kept in order by every step of it: what it knows comes from the analysis of alternatives of the grammar,
and the finished rules of its table are supplied by its registry.
-/

namespace PegGrammar

open Compiling

/-- First sets and literals as the analysis of alternatives, one after the other, leaves them, whose literals get
their numbers in an order. -/
inductive Compiler.AnalysedIn (order : LiteralOrder) (c : Compiler) : LeadState → Registry String → Prop
  | start : AnalysedIn order c .start (.empty order.registry)
  | next {s t : Session} {r : Rule} {first : Option BitSet} : AnalysedIn order c s.leads s.literals →
      c.HasAlternative r → (branchLiteralsIn order c r).result s = (.ok first, t) →
      AnalysedIn order c t.leads t.literals

/-- An alternative `r` of the grammar was compiled to `branch`, `found` was found as its first set after that, and
`set` has the numbers of the literals of this set. -/
structure Compiler.Supplies (order : LiteralOrder) (c : Compiler) (literals : Registry String) (r : Rule)
    (found : FirstSet) (set : BitSet) (branch : Parser) : Prop where
  alternative : c.HasAlternative r
  compiled : ∃ fuel s mid, c.AnalysedIn order s.leads s.literals ∧
    (bodyIn order c (ruleIn order c fuel) r).result s = (.ok branch, mid) ∧
    c.AnalysedIn order mid.leads mid.literals ∧ found = (Lead.ofRule c.leadContext r true mid.leads).1
  prunable : found.isPrunable = true
  registry : set.registry = order.registry
  members : ∀ id, set.containsId id = true → ∃ text ∈ found.literals, (id, text) ∈ literals.entries
  numbered : ∀ text ∈ found.literals, ∃ id, (id, text) ∈ literals.entries ∧ set.containsId id = true

theorem Compiler.Supplies.denotes {order : LiteralOrder} {c : Compiler} {literals : Registry String} {r : Rule}
    {found : FirstSet} {set : BitSet} {branch : Parser} (h : c.Supplies order literals r found set branch) :
    set.Denotes literals found.literals :=
  ⟨h.members, h.numbered⟩

/-- What a branch carries was supplied when it was compiled. -/
def Compiler.SuppliesBranch (order : LiteralOrder) (c : Compiler) (literals : Registry String)
    (branch : Option BitSet × Parser) : Prop :=
  ∀ set, branch.1 = some set → ∃ r found, c.Supplies order literals r found set branch.2

/-- Whatever is carried in a parser was supplied. -/
def Compiler.SuppliesAll (order : LiteralOrder) (c : Compiler) (literals : Registry String) (q : Parser) : Prop :=
  ∀ branches, Parser.Within (.choice branches) q → ∀ branch ∈ branches, c.SuppliesBranch order literals branch

/-- What a session knows comes from the analysis of alternatives, and whatever its finished rules carry was
supplied. -/
structure Session.Stocked (order : LiteralOrder) (c : Compiler) (s : Session) : Prop where
  analysed : c.AnalysedIn order s.leads s.literals
  supplied : ∀ name body, (name, some body) ∈ s.table.rules → c.SuppliesAll order s.literals body

variable {order : LiteralOrder} {c : Compiler}

theorem LiteralOrder.denotes_list (order : LiteralOrder) {s : Session} {found : FirstSet} {set : BitSet}
    {literals : Registry String} (h : set.Denotes literals (order.list s found)) :
    set.Denotes literals found.literals := by
  refine ⟨fun id hid => ?_, fun text htext => h.numbered text (order.mem_list.2 htext)⟩
  obtain ⟨text, htext, hentry⟩ := h.members id hid
  exact ⟨text, order.mem_list.1 htext, hentry⟩

/-! ### Growing registries -/

section

variable {literals larger : Registry String} {q : Parser}

theorem Compiler.SuppliesBranch.mono {branch : Option BitSet × Parser} (h : c.SuppliesBranch order literals branch)
    (hlarger : literals.entries ⊆ larger.entries) : c.SuppliesBranch order larger branch := by
  intro set hset
  obtain ⟨r, found, h⟩ := h set hset
  obtain ⟨hmembers, hnumbered⟩ := h.denotes.mono hlarger
  exact ⟨r, found, { h with members := hmembers, numbered := hnumbered }⟩

theorem Compiler.SuppliesAll.mono (h : c.SuppliesAll order literals q)
    (hlarger : literals.entries ⊆ larger.entries) : c.SuppliesAll order larger q :=
  fun branches hwithin branch hbranch => (h branches hwithin branch hbranch).mono hlarger

theorem Compiler.SuppliesAll.of_carriesNothing (h : q.CarriesNothing) : c.SuppliesAll order literals q := by
  intro branches hwithin branch hbranch set hset
  rw [h branches hwithin branch hbranch] at hset
  cases hset

theorem Compiler.SuppliesAll.of_parts (hbranches : ∀ branches, q = .choice branches →
      ∀ branch ∈ branches, c.SuppliesBranch order literals branch)
    (hparts : ∀ part ∈ q.parts, c.SuppliesAll order literals part) : c.SuppliesAll order literals q := by
  intro branches hwithin
  cases hwithin with
  | root => exact hbranches branches rfl
  | part hpart hwithin => exact hparts _ hpart branches hwithin

theorem sound_of_analysedIn {leads : LeadState} (h : c.AnalysedIn order leads literals) : literals.Sound := by
  induction h with
  | start => exact Registry.sound_empty _
  | @next s _ _ _ _ _ hresult ih =>
    obtain ⟨-, ⟨-, hsame⟩ | ⟨found, set, -, -, -, hnumbered⟩⟩ := branchLiteralsIn_eq_ok hresult
    · exact hsame ▸ ih
    · have hsound := (sound_numbered (order.list s found) ih).1
      rwa [hnumbered] at hsound

theorem identity_of_analysedIn {leads : LeadState} (h : c.AnalysedIn order leads literals) :
    literals.identity = order.registry := by
  induction h with
  | start => rfl
  | @next s _ _ _ hanalysed _ hresult ih =>
    obtain ⟨-, ⟨-, hsame⟩ | ⟨found, set, -, -, -, hnumbered⟩⟩ := branchLiteralsIn_eq_ok hresult
    · exact hsame ▸ ih
    · have hidentity := (numbers_numbered (order.list s found) (sound_of_analysedIn hanalysed)).identity
      rw [hnumbered] at hidentity
      exact hidentity.trans ih

end

namespace Compiling

/-- Wherever a step succeeds in a stocked session, it leaves it stocked, keeps the numbers that were given, and gives
something that the literals are right for. -/
def Stocks (order : LiteralOrder) (c : Compiler) {α : Type} (P : Registry String → α → Prop) (m : Compiling α) :
    Prop :=
  ∀ s a t, s.Stocked order c → m.result s = (.ok a, t) →
    t.Stocked order c ∧ s.literals.entries ⊆ t.literals.entries ∧ P t.literals a

section

variable {α β : Type} {P : Registry String → α → Prop} {Q : Registry String → β → Prop}

theorem Passive.stocks {m : Compiling α} (hm : Passive m)
    (hP : ∀ s a t, m.result s = (.ok a, t) → ∀ literals, P literals a) : Stocks order c P m := by
  intro s a t hs h
  obtain ⟨htable, hleads, hliterals⟩ := hm.unchanged h
  refine ⟨⟨?_, ?_⟩, hliterals ▸ List.Subset.refl _, hP s a t h _⟩
  · rw [hleads, hliterals]
    exact hs.analysed
  · rw [htable, hliterals]
    exact hs.supplied

theorem Stocks.after {m : Compiling Unit} {k : Compiling β} (hm : Passive m) (hk : Stocks order c Q k) :
    Stocks order c Q (m >>= fun _ => k) := by
  intro s b u hs h
  obtain ⟨_, t, hfirst, h⟩ := result_bind_eq_ok.1 h
  obtain ⟨ht, -, -⟩ := hm.stocks (P := fun _ _ => True) (fun _ _ _ _ _ => trivial) s _ t hs hfirst
  obtain ⟨hu, hentries, hb⟩ := hk t b u ht h
  rw [(hm.unchanged hfirst).2.2] at hentries
  exact ⟨hu, hentries, hb⟩

theorem Stocks.map {m : Compiling α} {f : α → β} (hm : Stocks order c P m)
    (hf : ∀ literals a, P literals a → Q literals (f a)) : Stocks order c Q (m >>= fun a => pure (f a)) := by
  intro s b t hs h
  obtain ⟨a, mid, ha, h⟩ := result_bind_eq_ok.1 h
  obtain ⟨rfl, rfl⟩ := result_pure_eq_ok.1 h
  obtain ⟨ht, hentries, hP⟩ := hm s a t hs ha
  exact ⟨ht, hentries, hf _ a hP⟩

theorem Stocks.mapM {rules : List Rule} {f : Rule → Compiling α}
    (hmono : ∀ {literals larger : Registry String} {a}, literals.entries ⊆ larger.entries → P literals a → P larger a)
    (hf : ∀ r ∈ rules, Stocks order c P (f r)) :
    Stocks order c (fun literals as => ∀ a ∈ as, P literals a) (rules.mapM f) := by
  induction rules with
  | nil =>
    refine (passive_pure []).stocks fun s as t h literals a ha => ?_
    rw [(result_pure_eq_ok.1 h).1] at ha
    cases ha
  | cons r rules ih =>
    rw [List.mapM_cons]
    intro s as u hs h
    obtain ⟨a, t, ha, h⟩ := result_bind_eq_ok.1 h
    obtain ⟨rest, last, hrest, h⟩ := result_bind_eq_ok.1 h
    obtain ⟨rfl, rfl⟩ := result_pure_eq_ok.1 h
    obtain ⟨ht, hentries, hP⟩ := hf r List.mem_cons_self s a t hs ha
    obtain ⟨hu, hmore, hall⟩ := ih (fun r hr => hf r (List.mem_cons_of_mem _ hr)) t rest u ht hrest
    exact ⟨hu, List.Subset.trans hentries hmore, List.forall_mem_cons.2 ⟨hmono hmore hP, hall⟩⟩

end

/-! ### Definitions -/

section

variable {fuel : Nat} {ofRule : Rule → String → Compiling Parser}

theorem suppliesBranch_none {literals : Registry String} {q : Parser} : c.SuppliesBranch order literals (none, q) := by
  intro set hset
  cases hset

/-- An alternative is analysed after it was compiled, and its literals get their numbers then. -/
theorem stocks_branchIn {r : Rule} (halternative : c.HasAlternative r)
    (hbody : Stocks order c (c.SuppliesAll order) (bodyIn order c (ruleIn order c fuel) r)) :
    Stocks order c (fun literals branch => c.SuppliesBranch order literals branch ∧
        c.SuppliesAll order literals branch.2)
      (branchIn order c (bodyIn order c (ruleIn order c fuel) r) r) := by
  intro s branch u hs h
  obtain ⟨parser, mid, hparser, h⟩ := result_bind_eq_ok.1 h
  obtain ⟨first, t, hfirst, h⟩ := result_bind_eq_ok.1 h
  obtain ⟨rfl, rfl⟩ := result_pure_eq_ok.1 h
  obtain ⟨hmid, hentries, hsupplied⟩ := hbody s parser mid hs hparser
  have hanalysed : c.AnalysedIn order u.leads u.literals := .next hmid.analysed halternative hfirst
  obtain ⟨htable, ⟨rfl, hsame⟩ | ⟨found, set, hfound, hprunable, rfl, hnumbered⟩⟩ := branchLiteralsIn_eq_ok hfirst
  · rw [hsame]
    refine ⟨⟨hanalysed, ?_⟩, hentries, suppliesBranch_none, hsupplied⟩
    rw [htable, hsame]
    exact hmid.supplied
  · have hnumbers := numbers_numbered (order.list mid found) (sound_of_analysedIn hmid.analysed)
    rw [hnumbered] at hnumbers
    refine ⟨⟨hanalysed, fun name body hbody => ?_⟩, List.Subset.trans hentries hnumbers.entries, ?_,
      hsupplied.mono hnumbers.entries⟩
    · exact (hmid.supplied name body (htable ▸ hbody)).mono hnumbers.entries
    intro other hother
    cases hother
    obtain ⟨hmembers, hnumbered⟩ := order.denotes_list hnumbers.denotes
    exact ⟨r, found, halternative, ⟨fuel, s, mid, hs.analysed, hparser, hmid.analysed, hfound⟩, hprunable,
      hnumbers.registry.trans (identity_of_analysedIn hmid.analysed), hmembers, hnumbered⟩

theorem suppliesAll_leaf {literals : Registry String} {q : Parser} (hq : q.parts = []) :
    c.SuppliesAll order literals q := by
  refine .of_parts (fun branches hchoice branch hbranch => ?_) (fun part hpart => ?_)
  · rw [hchoice, Parser.parts, List.map_eq_nil_iff] at hq
    rw [hq] at hbranch
    cases hbranch
  · rw [hq] at hpart
    cases hpart

theorem stocks_reference (hcarry : ∀ entry ∈ c.overrides, entry.2.CarriesNothing)
    (hofRule : ∀ name definition, c.grammar.lookup name = some definition →
      Stocks order c (c.SuppliesAll order) (ofRule definition name)) (name : String) :
    Stocks order c (c.SuppliesAll order) (reference c ofRule name) := by
  rw [reference_eq]
  cases hreplaced : c.overrides.lookup name with
  | some replacement =>
    refine ((passive_note _).bind fun _ => passive_pure _).stocks fun s q t h literals => ?_
    obtain ⟨_, _, _, h⟩ := result_bind_eq_ok.1 h
    obtain ⟨rfl, rfl⟩ := result_pure_eq_ok.1 h
    exact .of_carriesNothing (hcarry _ (mem_of_lookup hreplaced))
  | none =>
    dsimp only
    cases hdefined : c.grammar.lookup name with
    | some definition => exact hofRule name definition hdefined
    | none =>
      refine (passive_undefined c name).stocks fun s q t h literals => suppliesAll_leaf ?_
      rcases Compiler.leaf_of_undefined? (undefined_eq_ok h) with rfl | rfl | rfl
      all_goals rfl

theorem stocks_layer (hcarry : ∀ entry ∈ c.overrides, entry.2.CarriesNothing)
    (hofRule : ∀ name definition, c.grammar.lookup name = some definition →
      Stocks order c (c.SuppliesAll order) (ofRule definition name)) {shape : Rule.Shape} (hparts : shape.parts = []) :
    Stocks order c (c.SuppliesAll order) (layer c ofRule shape) := by
  have leaf : ∀ {m : Compiling Parser}, Passive m → (∀ s q t, m.result s = (.ok q, t) → q.parts = []) →
      Stocks order c (c.SuppliesAll order) m :=
    fun hm hq => hm.stocks fun s q t h _ => suppliesAll_leaf (hq s q t h)
  have constant : ∀ {q : Parser}, q.parts = [] → Stocks order c (c.SuppliesAll order) (pure q) :=
    fun hq => leaf (passive_pure _) fun s q t h => by rw [(result_pure_eq_ok.1 h).1, hq]
  have failing : ∀ {error : String → CompileError}, Stocks order c (c.SuppliesAll order) (fail error) :=
    fun s q t _ h => by cases h
  cases shape with
  | reference name => exact stocks_reference hcarry hofRule name
  | sequence items =>
    obtain rfl : items = [] := hparts
    dsimp only [layer]
    rw [bodies_nil, pure_bind]
    exact constant rfl
  | choice rules =>
    obtain rfl : rules = [] := hparts
    dsimp only [layer]
    rw [branches_nil, pure_bind]
    exact constant rfl
  | literal text =>
    refine leaf (passive_literal text) fun s q t h => ?_
    rw [(literal_eq_ok h).2]
    rfl
  | regex source =>
    dsimp only [layer, Parser.ofPattern?]
    cases Pattern.ofString? source with
    | none => exact failing
    | some pattern => exact constant rfl
  | eof => exact constant rfl
  | indent => exact constant rfl
  | script source =>
    dsimp only [layer]
    cases c.scripts.compile source with
    | error reason => exact failing
    | ok handle => exact constant rfl
  | wrong error => exact failing
  | repeated | ahead | notAhead | optional | annotated => cases hparts

/-- What is carried in the parser of a definition was supplied when it was compiled. -/
theorem stocks_bodyIn (hcarry : ∀ entry ∈ c.overrides, entry.2.CarriesNothing)
    (hofRule : ∀ name definition, c.grammar.lookup name = some definition →
      Stocks order c (c.SuppliesAll order) (ruleIn order c fuel definition name)) {r : Rule}
    (hcontains : c.Contains r) :
    Stocks order c (c.SuppliesAll order) (bodyIn order c (ruleIn order c fuel) r) := by
  induction r using Rule.induction_on_parts with
  | step r ih =>
    have hpart : ∀ {part}, part ∈ r.shape.parts →
        Stocks order c (c.SuppliesAll order) (bodyIn order c (ruleIn order c fuel) part) :=
      fun hmem => ih _ hmem (hcontains.part hmem)
    have unary : ∀ {wrap : Parser → Parser} {part : Rule}, part ∈ r.shape.parts →
        (∀ q branches, wrap q ≠ .choice branches) → (∀ q, (wrap q).parts = [q]) →
        Stocks order c (c.SuppliesAll order)
          (bodyIn order c (ruleIn order c fuel) part >>= fun q => pure (wrap q)) := by
      intro wrap part hmem hwrap hparts
      refine (hpart hmem).map fun literals q hq => .of_parts (fun branches h => (hwrap q branches h).elim) ?_
      rw [hparts]
      exact List.forall_mem_singleton.2 hq
    rw [bodyIn]
    refine .after (passive_introduction r) ?_
    split
    case h_1 items hshape =>
      have hitems : Stocks order c (fun literals qs => ∀ q ∈ qs, c.SuppliesAll order literals q)
          (items.mapM (bodyIn order c (ruleIn order c fuel))) :=
        .mapM (fun hlarger hq => hq.mono hlarger) fun item hitem => hpart (hshape ▸ hitem)
      rw [← mapM_attach (f := fun item => bodyIn order c (ruleIn order c fuel) item.1) fun _ _ => rfl] at hitems
      exact hitems.map fun literals qs hqs => .of_parts (fun branches h => nomatch h) hqs
    case h_2 rules hshape =>
      have hrules : Stocks order c (fun literals branches => ∀ branch ∈ branches,
            c.SuppliesBranch order literals branch ∧ c.SuppliesAll order literals branch.2)
          (rules.mapM fun r => branchIn order c (bodyIn order c (ruleIn order c fuel) r) r) :=
        .mapM (fun hlarger hq => ⟨hq.1.mono hlarger, hq.2.mono hlarger⟩) fun rule hrule =>
          stocks_branchIn ⟨r, rules, hcontains, hshape, hrule⟩ (hpart (hshape ▸ hrule))
      rw [← mapM_attach (f := fun r => branchIn order c (bodyIn order c (ruleIn order c fuel) r.1) r.1)
        fun _ _ => rfl] at hrules
      refine hrules.map fun literals branches hbranches => .of_parts ?_ ?_
      · intro _ heq branch hbranch
        cases heq
        exact (hbranches branch hbranch).1
      · intro part hmem
        obtain ⟨branch, hbranch, rfl⟩ := List.mem_map.1 hmem
        exact (hbranches branch hbranch).2
    case h_3 part hshape => exact unary (hshape ▸ List.mem_cons_self) nofun fun q => rfl
    case h_4 part hshape => exact unary (hshape ▸ List.mem_cons_self) nofun fun q => rfl
    case h_5 part hshape => exact unary (hshape ▸ List.mem_cons_self) nofun fun q => rfl
    case h_6 part hshape => exact unary (hshape ▸ List.mem_cons_self) nofun fun q => rfl
    case h_7 value hshape => exact hpart (hshape ▸ List.mem_cons_self)
    case h_8 =>
      refine stocks_layer hcarry hofRule ?_
      cases hshape : r.shape <;> simp_all [Rule.Shape.parts]

end

/-! ### Named rules -/

theorem stocked_entering {s : Session} (hs : s.Stocked order c) (name : String) :
    (s.entering name).Stocked order c := by
  refine ⟨hs.analysed, fun other body hentry => ?_⟩
  rcases List.mem_append.1 hentry with hentry | hentry
  · exact hs.supplied other body hentry
  · cases List.mem_singleton.1 hentry

theorem stocked_keeping {s : Session} (hs : s.Stocked order c) (id : Nat) (name : String) {body : Parser}
    (hbody : c.SuppliesAll order s.literals body) : (s.leaving.keeping id name body).Stocked order c := by
  refine ⟨hs.analysed, fun other q hentry => ?_⟩
  obtain ⟨n, hn⟩ := List.mem_iff_getElem?.1 hentry
  change (s.table.rules.modify id fun entry => (entry.1, some body))[n]? = _ at hn
  rw [List.getElem?_modify] at hn
  obtain ⟨entry, hmem, heq⟩ := Option.map_eq_some_iff.1 hn
  split at heq
  · cases heq
    exact hbody
  · cases heq
    exact hs.supplied other q (List.mem_of_getElem? hmem)

theorem stocks_ruleIn (hcarry : ∀ entry ∈ c.overrides, entry.2.CarriesNothing) (fuel : Nat) (name : String)
    {definition : Rule} (hcontains : c.Contains definition) :
    Stocks order c (c.SuppliesAll order) (ruleIn order c fuel definition name) := by
  induction fuel generalizing name definition with
  | zero =>
    intro s q t _ h
    cases h
  | succ fuel ih =>
    have hbody := stocks_bodyIn hcarry (fun name definition hlookup => ih name (.definition hlookup)) hcontains
    intro s q t hs h
    rw [ruleIn] at h
    split at h
    · exact hbody s q t hs h
    obtain ⟨id, mid, hnamed, h⟩ := result_bind_eq_ok.1 h
    obtain ⟨rfl, rfl⟩ := result_pure_eq_ok.1 h
    rw [result_named] at hnamed
    split at hnamed
    · cases hnamed
      exact ⟨hs, List.Subset.refl _, suppliesAll_leaf rfl⟩
    rcases hinner : (bodyIn order c (ruleIn order c fuel) definition).result (s.entering name) with ⟨_ | body, inner⟩
    · rw [hinner] at hnamed
      cases hnamed
    rw [hinner] at hnamed
    cases hnamed
    obtain ⟨hstocked, hentries, hsupplied⟩ := hbody _ body inner (stocked_entering hs name) hinner
    exact ⟨stocked_keeping hstocked _ name hsupplied, hentries, suppliesAll_leaf rfl⟩

end Compiling

theorem LiteralOrder.stocked_start : order.start.Stocked order c :=
  ⟨.start, fun _ _ hentry => nomatch hentry⟩

/-- Whatever the rules of a program carry was supplied by the registry of the program. -/
theorem Compiler.supplies_of_compileIn (hcarry : ∀ entry ∈ c.overrides, entry.2.CarriesNothing) {start : String}
    {p : Program} (hp : c.compileIn order start = .ok p) :
    p.literals.Sound ∧ p.literals.identity = order.registry ∧
      ∀ rule ∈ p.rules, c.SuppliesAll order p.literals rule.body := by
  obtain ⟨definition, parser, session, rules, hlookup, hresult, -, hfinish, hprogram⟩ :=
    exists_session_of_compileIn hp
  obtain ⟨hstocked, -, -⟩ :=
    stocks_ruleIn hcarry (fuelFor c) start (.definition hlookup) _ parser session order.stocked_start hresult
  rw [hprogram]
  refine ⟨sound_of_analysedIn hstocked.analysed, identity_of_analysedIn hstocked.analysed, fun rule hrule => ?_⟩
  refine hstocked.supplied rule.name rule.body ?_
  rw [RuleTable.rules_of_finish hfinish]
  exact List.mem_map_of_mem hrule

end PegGrammar
