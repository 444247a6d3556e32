import PegGrammar.Proofs.Compile.Supply
import PegGrammar.Proofs.Compile.Table
import PegGrammar.Proofs.Parser.Alike

/-!
# Compiling with other numbers

Two sessions that give numbers to literals in different orders, or from different registries, go through the same
steps. Numbers are only ever put into the sets that alternatives carry, and no step looks into these. So the sessions
meet the same errors and fill their tables in the same way, and where the one puts a set the other one puts a set of
the same literals.
-/

namespace PegGrammar

open Compiling

/-- What is carried in the same place: nothing, or numbers of the same literals. -/
inductive SameLiterals (literals literals' : Registry String) : Option BitSet → Option BitSet → Prop
  | nothing : SameLiterals literals literals' none none
  | sets {set set' : BitSet} {texts : List String} : set.Denotes literals texts → set'.Denotes literals' texts →
      SameLiterals literals literals' (some set) (some set')

theorem SameLiterals.mono {literals literals' larger larger' : Registry String} {first first' : Option BitSet}
    (h : SameLiterals literals literals' first first') (hlarger : literals.entries ⊆ larger.entries)
    (hlarger' : literals'.entries ⊆ larger'.entries) : SameLiterals larger larger' first first' := by
  cases h with
  | nothing => exact .nothing
  | sets hset hset' => exact .sets (hset.mono hlarger) (hset'.mono hlarger')

/-! ### Tables -/

/-- Two rules of one name whose bodies, if they are finished, are alike. -/
structure RuleTable.AlikeEntry (B : Option BitSet → Option BitSet → Prop) (entry entry' : String × Option Parser) :
    Prop where
  name : entry'.1 = entry.1
  body : Option.Rel (Parser.Alike B) entry.2 entry'.2

namespace RuleTable

variable {B B' : Option BitSet → Option BitSet → Prop} {t t' : RuleTable}

theorem AlikeEntry.mono (hB : ∀ first first', B first first' → B' first first')
    {entry entry' : String × Option Parser} (h : AlikeEntry B entry entry') : AlikeEntry B' entry entry' := by
  obtain ⟨name, body⟩ := entry
  obtain ⟨name', body'⟩ := entry'
  obtain ⟨hname, hbody⟩ := h
  refine ⟨hname, ?_⟩
  cases hbody with
  | none => exact .none
  | some hbody => exact .some (hbody.mono hB)

theorem id?_of_alike (h : List.Forall₂ (AlikeEntry B) t.rules t'.rules) (name : String) :
    t'.id? name = t.id? name := by
  obtain ⟨rules⟩ := t
  obtain ⟨rules'⟩ := t'
  rw [id?, id?]
  dsimp only at h ⊢
  induction h with
  | nil => rfl
  | cons hentry _ ih => rw [List.findIdx?_cons, List.findIdx?_cons, hentry.name, ih]

theorem define_of_alike (h : List.Forall₂ (AlikeEntry B) t.rules t'.rules) {body body' : Parser}
    (hbody : body.Alike B body') (id : Nat) :
    List.Forall₂ (AlikeEntry B) (t.define id body).rules (t'.define id body').rules := by
  obtain ⟨rules⟩ := t
  obtain ⟨rules'⟩ := t'
  rw [define, define]
  dsimp only at h ⊢
  induction h generalizing id with
  | nil =>
    rw [List.modify_nil, List.modify_nil]
    exact .nil
  | cons hentry hentries ih =>
    cases id with
    | zero => exact .cons ⟨hentry.name, .some hbody⟩ hentries
    | succ id => exact .cons hentry (ih id)

theorem finish_of_alike (h : List.Forall₂ (AlikeEntry B) t.rules t'.rules) :
    (∃ error, t.finish = .error error ∧ t'.finish = .error error) ∨
      ∃ rules rules', t.finish = .ok rules ∧ t'.finish = .ok rules' ∧
        List.Forall₂ (CompiledRule.Alike B) rules rules' := by
  obtain ⟨rules⟩ := t
  obtain ⟨rules'⟩ := t'
  rw [finish, finish]
  dsimp only at h ⊢
  induction h with
  | nil => exact .inr ⟨[], [], rfl, rfl, .nil⟩
  | @cons entry entry' entries entries' hentry _ ih =>
    obtain ⟨name, body⟩ := entry
    obtain ⟨name', body'⟩ := entry'
    obtain ⟨hname, hbody⟩ := hentry
    cases (hname : name' = name)
    rw [List.mapM_cons, List.mapM_cons]
    cases hbody with
    | none => exact .inl ⟨_, rfl, rfl⟩
    | some hbody =>
      rcases ih with ⟨error, hfails, hfails'⟩ | ⟨rules, rules', hrules, hrules', halike⟩
      · rw [hfails, hfails']
        exact .inl ⟨error, rfl, rfl⟩
      · rw [hrules, hrules']
        exact .inr ⟨_, _, rfl, rfl, .cons ⟨rfl, hbody⟩ halike⟩

end RuleTable

/-! ### Sessions -/

/-- Two sessions that differ in the numbers of literals only. -/
structure Session.Twin (s s' : Session) : Prop where
  rules : List.Forall₂ (RuleTable.AlikeEntry (SameLiterals s.literals s'.literals)) s.table.rules s'.table.rules
  leads : s'.leads = s.leads
  context : s'.context = s.context
  log : s'.log = s.log
  sound : s.literals.Sound
  sound' : s'.literals.Sound

namespace Compiling

variable {α β : Type} {P : Registry String → Registry String → α → α → Prop}
variable {Q : Registry String → Registry String → β → β → Prop}

/-- The results of a step in two sessions: the same error, or two values that are related, in sessions that still
differ in numbers only and have kept those that were given. -/
inductive Twinned (P : Registry String → Registry String → α → α → Prop) (s s' : Session) :
    Except CompileError α × Session → Except CompileError α × Session → Prop
  | failed {error : CompileError} {t t' : Session} : Twinned P s s' (.error error, t) (.error error, t')
  | ok {a a' : α} {t t' : Session} : t.Twin t' → s.literals.entries ⊆ t.literals.entries →
      s'.literals.entries ⊆ t'.literals.entries → P t.literals t'.literals a a' →
      Twinned P s s' (.ok a, t) (.ok a', t')

/-- Two steps that do the same in sessions that differ in numbers only. -/
def Twins (P : Registry String → Registry String → α → α → Prop) (m m' : Compiling α) : Prop :=
  ∀ s s', s.Twin s' → Twinned P s s' (m.result s) (m'.result s')

theorem Twinned.grown {s s' t t' : Session} {result result' : Except CompileError α × Session}
    (h : Twinned P t t' result result') (hentries : s.literals.entries ⊆ t.literals.entries)
    (hentries' : s'.literals.entries ⊆ t'.literals.entries) : Twinned P s s' result result' := by
  cases h with
  | failed => exact .failed
  | ok hu hmore hmore' hP => exact .ok hu (List.Subset.trans hentries hmore) (List.Subset.trans hentries' hmore') hP

theorem Twinned.bind {s s' : Session} {m m' : Compiling α} {k k' : α → Compiling β}
    (hm : Twinned P s s' (m.result s) (m'.result s'))
    (hk : ∀ a a' t t', t.Twin t' → s.literals.entries ⊆ t.literals.entries →
      s'.literals.entries ⊆ t'.literals.entries → P t.literals t'.literals a a' →
        Twinned Q t t' ((k a).result t) ((k' a').result t')) :
    Twinned Q s s' ((m >>= k).result s) ((m' >>= k').result s') := by
  rw [result_bind, result_bind]
  generalize m.result s = result at hm ⊢
  generalize m'.result s' = result' at hm ⊢
  cases hm with
  | failed => exact .failed
  | ok ht hentries hentries' hP => exact (hk _ _ _ _ ht hentries hentries' hP).grown hentries hentries'

theorem Passive.twins {m : Compiling α} (hm : Passive m)
    (hP : ∀ s a t, m.result s = (.ok a, t) → ∀ literals literals', P literals literals' a a) : Twins P m m := by
  intro s s' hs
  have hs' : { s with table := s'.table, leads := s'.leads, literals := s'.literals } = s' := by
    rw [← hs.context, ← hs.log]
  have hother := hm s s'.table s'.leads s'.literals
  rw [hs'] at hother
  rw [hother]
  rcases hresult : m.result s with ⟨error | a, t⟩
  · exact .failed
  · obtain ⟨htable, hleads, hliterals⟩ := hm.unchanged hresult
    refine .ok ⟨?_, hs.leads.trans hleads.symm, rfl, rfl, hliterals ▸ hs.sound, hs.sound'⟩ ?_
      (List.Subset.refl _) (hP s a t hresult _ _)
    · rw [htable, hliterals]
      exact hs.rules
    · rw [hliterals]
      exact List.Subset.refl _

theorem Twins.after {m : Compiling Unit} {k k' : Compiling β} (hm : Passive m) (hk : Twins Q k k') :
    Twins Q (m >>= fun _ => k) (m >>= fun _ => k') := fun s s' hs =>
  Twinned.bind (hm.twins (P := fun _ _ _ _ => True) (fun _ _ _ _ _ _ => trivial) s s' hs)
    fun _ _ t t' ht _ _ _ => hk t t' ht

theorem twins_pure {a a' : α} (h : ∀ literals literals', P literals literals' a a') :
    Twins P (pure a) (pure a') :=
  fun _ _ hs => .ok hs (List.Subset.refl _) (List.Subset.refl _) (h _ _)

theorem Twins.map {m m' : Compiling α} {f : α → β} (hm : Twins P m m')
    (hf : ∀ literals literals' a a', P literals literals' a a' → Q literals literals' (f a) (f a')) :
    Twins Q (m >>= fun a => pure (f a)) (m' >>= fun a => pure (f a)) := fun s s' hs =>
  (hm s s' hs).bind fun a a' _ _ ht _ _ hP => .ok ht (List.Subset.refl _) (List.Subset.refl _) (hf _ _ a a' hP)

theorem Twins.mapM {rules : List Rule} {f f' : Rule → Compiling α}
    (hmono : ∀ {literals literals' larger larger' : Registry String} {a a'}, literals.entries ⊆ larger.entries →
      literals'.entries ⊆ larger'.entries → P literals literals' a a' → P larger larger' a a')
    (hf : ∀ r ∈ rules, Twins P (f r) (f' r)) :
    Twins (fun literals literals' => List.Forall₂ (P literals literals')) (rules.mapM f) (rules.mapM f') := by
  induction rules with
  | nil => exact twins_pure fun _ _ => .nil
  | cons r rules ih =>
    rw [List.mapM_cons, List.mapM_cons]
    intro s s' hs
    refine (hf r List.mem_cons_self s s' hs).bind fun a a' t t' ht _ _ hP => ?_
    have hrest := ih (fun r hr => hf r (List.mem_cons_of_mem _ hr)) t t' ht
    refine hrest.bind fun rest rest' u u' hu hmore hmore' hall => ?_
    exact .ok hu (List.Subset.refl _) (List.Subset.refl _) (.cons (hmono hmore hmore' hP) hall)

/-! ### Definitions -/

section

variable {order order' : LiteralOrder} {c : Compiler} {ofRule ofRule' : Rule → String → Compiling Parser}

/-- Parsers that are alike but for numbers. -/
def AlikeParsers (literals literals' : Registry String) : Parser → Parser → Prop :=
  Parser.Alike (SameLiterals literals literals')

/-- Alternatives that are alike but for numbers. -/
def AlikeBranches (literals literals' : Registry String) (branch branch' : Option BitSet × Parser) : Prop :=
  SameLiterals literals literals' branch.1 branch'.1 ∧ AlikeParsers literals literals' branch.2 branch'.2

theorem AlikeParsers.mono {literals literals' larger larger' : Registry String} {q q' : Parser}
    (hlarger : literals.entries ⊆ larger.entries) (hlarger' : literals'.entries ⊆ larger'.entries)
    (h : AlikeParsers literals literals' q q') : AlikeParsers larger larger' q q' :=
  Parser.Alike.mono (fun _ _ hfirst => hfirst.mono hlarger hlarger') h

/-- The first sets are the same, so the sets of numbers are sets of the same literals. -/
theorem twins_branchLiteralsIn (r : Rule) :
    Twins SameLiterals (branchLiteralsIn order c r) (branchLiteralsIn order' c r) := by
  intro s s' hs
  rw [result_branchLiteralsIn, result_branchLiteralsIn, hs.leads]
  dsimp only
  split
  · generalize Lead.ofRule _ r true s.leads = found
    obtain ⟨first, leads⟩ := found
    dsimp only
    split
    · have hnumbers := numbers_numbered (order.list s first) hs.sound
      have hnumbers' := numbers_numbered (order'.list s' first) hs.sound'
      refine .ok ⟨?_, rfl, hs.context, hs.log, hnumbers.sound, hnumbers'.sound⟩ hnumbers.entries hnumbers'.entries
        (.sets (order.denotes_list hnumbers.denotes) (order'.denotes_list hnumbers'.denotes))
      exact hs.rules.imp fun _ _ hentry => hentry.mono fun _ _ hfirst => hfirst.mono hnumbers.entries hnumbers'.entries
    · exact .ok { hs with leads := rfl } (List.Subset.refl _) (List.Subset.refl _) .nothing
  · exact .ok hs (List.Subset.refl _) (List.Subset.refl _) .nothing

theorem twins_branchIn {compile compile' : Compiling Parser} (hcompile : Twins AlikeParsers compile compile')
    (r : Rule) : Twins AlikeBranches (branchIn order c compile r) (branchIn order' c compile' r) := by
  intro s s' hs
  refine (hcompile s s' hs).bind fun q q' t t' ht _ _ hq => ?_
  refine (twins_branchLiteralsIn r t t' ht).bind fun first first' u u' hu hmore hmore' hfirst => ?_
  exact .ok hu (List.Subset.refl _) (List.Subset.refl _) ⟨hfirst, hq.mono hmore hmore'⟩

theorem twins_reference (hcarry : ∀ entry ∈ c.overrides, entry.2.CarriesNothing)
    (hofRule : ∀ definition name, Twins AlikeParsers (ofRule definition name) (ofRule' definition name))
    (name : String) : Twins AlikeParsers (reference c ofRule name) (reference c ofRule' name) := by
  rw [reference_eq, reference_eq]
  cases hreplaced : c.overrides.lookup name with
  | some replacement =>
    have hreplacement := hcarry _ (mem_of_lookup hreplaced)
    exact .after (passive_note _) (twins_pure fun _ _ => hreplacement.alike .nothing)
  | none =>
    dsimp only
    cases c.grammar.lookup name with
    | some definition => exact hofRule definition name
    | none =>
      refine (passive_undefined c name).twins fun s q t h _ _ => ?_
      rcases Compiler.leaf_of_undefined? (undefined_eq_ok h) with rfl | rfl | rfl
      · exact .eof
      · exact .indent
      · exact .literal name

theorem twins_layer (hcarry : ∀ entry ∈ c.overrides, entry.2.CarriesNothing)
    (hofRule : ∀ definition name, Twins AlikeParsers (ofRule definition name) (ofRule' definition name))
    {shape : Rule.Shape} (hparts : shape.parts = []) :
    Twins AlikeParsers (layer c ofRule shape) (layer c ofRule' shape) := by
  have failing : ∀ {error : String → CompileError}, Twins AlikeParsers (fail error) (fail error) :=
    (passive_fail _).twins fun _ _ _ h => nomatch h
  cases shape with
  | reference name => exact twins_reference hcarry hofRule name
  | sequence items =>
    obtain rfl : items = [] := hparts
    dsimp only [layer]
    rw [bodies_nil, bodies_nil, pure_bind]
    exact twins_pure fun _ _ => .sequence .nil
  | choice rules =>
    obtain rfl : rules = [] := hparts
    dsimp only [layer]
    rw [branches_nil, branches_nil, pure_bind]
    exact twins_pure fun _ _ => .choice .nil .nil
  | literal text =>
    refine (passive_literal text).twins fun s q t h _ _ => ?_
    rw [(literal_eq_ok h).2]
    exact .literal text
  | regex source =>
    dsimp only [layer, Parser.ofPattern?]
    cases Pattern.ofString? source with
    | none => exact failing
    | some pattern => exact twins_pure fun _ _ => .regex pattern
  | eof => exact twins_pure fun _ _ => .eof
  | indent => exact twins_pure fun _ _ => .indent
  | script source =>
    dsimp only [layer]
    cases c.scripts.compile source with
    | error reason => exact failing
    | ok handle => exact twins_pure fun _ _ => .script source handle
  | wrong error => exact failing
  | repeated | ahead | notAhead | optional | annotated => cases hparts

theorem twins_bodyIn (hcarry : ∀ entry ∈ c.overrides, entry.2.CarriesNothing)
    (hofRule : ∀ definition name, Twins AlikeParsers (ofRule definition name) (ofRule' definition name)) (r : Rule) :
    Twins AlikeParsers (bodyIn order c ofRule r) (bodyIn order' c ofRule' r) := by
  induction r using Rule.induction_on_parts with
  | step r ih =>
    rw [bodyIn, bodyIn]
    refine .after (passive_introduction r) ?_
    split
    case h_1 items hshape =>
      have hitems : Twins (fun literals literals' => List.Forall₂ (AlikeParsers literals literals'))
          (items.mapM (bodyIn order c ofRule)) (items.mapM (bodyIn order' c ofRule')) :=
        .mapM (fun hlarger hlarger' hq => hq.mono hlarger hlarger') fun item hitem => ih item (hshape ▸ hitem)
      rw [← mapM_attach (f := fun item => bodyIn order c ofRule item.1) fun _ _ => rfl,
        ← mapM_attach (f := fun item => bodyIn order' c ofRule' item.1) fun _ _ => rfl] at hitems
      exact hitems.map fun _ _ _ _ hqs => .sequence hqs
    case h_2 rules hshape =>
      have hrules : Twins (fun literals literals' => List.Forall₂ (AlikeBranches literals literals'))
          (rules.mapM fun r => branchIn order c (bodyIn order c ofRule r) r)
          (rules.mapM fun r => branchIn order' c (bodyIn order' c ofRule' r) r) :=
        .mapM (fun hlarger hlarger' hbranch => ⟨hbranch.1.mono hlarger hlarger', hbranch.2.mono hlarger hlarger'⟩)
          fun rule hrule => twins_branchIn (ih rule (hshape ▸ hrule)) rule
      rw [← mapM_attach (f := fun r => branchIn order c (bodyIn order c ofRule r.1) r.1) fun _ _ => rfl,
        ← mapM_attach (f := fun r => branchIn order' c (bodyIn order' c ofRule' r.1) r.1) fun _ _ => rfl] at hrules
      refine hrules.map fun _ _ _ _ hbranches => .choice ?_ ?_
      · rw [List.forall₂_map_left_iff, List.forall₂_map_right_iff]
        exact hbranches.imp fun _ _ hbranch => hbranch.1
      · rw [List.forall₂_map_left_iff, List.forall₂_map_right_iff]
        exact hbranches.imp fun _ _ hbranch => hbranch.2
    case h_3 part hshape => exact (ih part (hshape ▸ List.mem_cons_self)).map fun _ _ _ _ hq => .repeated hq
    case h_4 part hshape => exact (ih part (hshape ▸ List.mem_cons_self)).map fun _ _ _ _ hq => .ahead hq
    case h_5 part hshape => exact (ih part (hshape ▸ List.mem_cons_self)).map fun _ _ _ _ hq => .notAhead hq
    case h_6 part hshape => exact (ih part (hshape ▸ List.mem_cons_self)).map fun _ _ _ _ hq => .optional hq
    case h_7 value hshape => exact ih value (hshape ▸ List.mem_cons_self)
    case h_8 =>
      refine twins_layer hcarry hofRule ?_
      cases hshape : r.shape <;> simp_all [Rule.Shape.parts]

/-! ### Named rules -/

theorem twins_named {compile compile' : Compiling Parser} (h : Twins AlikeParsers compile compile') (name : String) :
    Twins (fun _ _ id id' => id' = id) (named name compile) (named name compile') := by
  intro s s' hs
  rw [result_named, result_named, RuleTable.id?_of_alike hs.rules]
  cases s.table.id? name with
  | some id => exact .ok hs (List.Subset.refl _) (List.Subset.refl _) rfl
  | none =>
    dsimp only
    have hsize : s'.table.size = s.table.size := hs.rules.length_eq.symm
    have hentering : (s.entering name).Twin (s'.entering name) :=
      ⟨List.rel_append hs.rules (.cons ⟨rfl, .none⟩ .nil), hs.leads, congrArg (name :: ·) hs.context, hs.log,
        hs.sound, hs.sound'⟩
    have hinner := h _ _ hentering
    rw [hsize]
    generalize compile.result (s.entering name) = result at hinner ⊢
    generalize compile'.result (s'.entering name) = result' at hinner ⊢
    cases hinner with
    | failed => exact .failed
    | ok ht hentries hentries' hbody =>
      refine .ok ⟨RuleTable.define_of_alike ht.rules hbody s.table.size, ht.leads, congrArg List.tail ht.context,
        ?_, ht.sound, ht.sound'⟩ hentries hentries' rfl
      exact congrArg (_ :: ·) ht.log

theorem twins_ruleIn (hcarry : ∀ entry ∈ c.overrides, entry.2.CarriesNothing) (fuel : Nat) (definition : Rule)
    (name : String) :
    Twins AlikeParsers (ruleIn order c fuel definition name) (ruleIn order' c fuel definition name) := by
  induction fuel generalizing definition name with
  | zero => exact (passive_fail _).twins fun _ _ _ h => nomatch h
  | succ fuel ih =>
    have hbody : Twins AlikeParsers (bodyIn order c (ruleIn order c fuel) definition)
        (bodyIn order' c (ruleIn order' c fuel) definition) := twins_bodyIn hcarry ih definition
    rw [ruleIn, ruleIn]
    split
    · exact hbody
    · refine (twins_named hbody name).map fun _ _ id _ hid => ?_
      rw [hid]
      exact .rule id

end

end Compiling

theorem LiteralOrder.twin_start (order order' : LiteralOrder) : order.start.Twin order'.start :=
  ⟨.nil, rfl, rfl, rfl, Registry.sound_empty _, Registry.sound_empty _⟩

/-- Two programs that differ in the numbers of literals only. -/
structure Program.Renumbers (p q : Program) : Prop where
  rules : List.Forall₂ (CompiledRule.Alike (SameLiterals p.literals q.literals)) p.rules q.rules
  start : q.start = p.start
  nesting : q.nesting = p.nesting
  scripts : q.scripts = p.scripts
  config : q.config = p.config
  fingerprint : q.fingerprint = p.fingerprint
  sound : p.literals.Sound
  sound' : q.literals.Sound

theorem foldl_nesting_of_alike {B : Option BitSet → Option BitSet → Prop} {rules rules' : List CompiledRule}
    (h : List.Forall₂ (CompiledRule.Alike B) rules rules') (n : Nat) :
    rules'.foldl (fun n rule => max n rule.body.nesting) n = rules.foldl (fun n rule => max n rule.body.nesting) n := by
  induction h generalizing n with
  | nil => rfl
  | cons hrule _ ih => rw [List.foldl_cons, List.foldl_cons, hrule.body.nesting_eq, ih]

/-- In whatever order literals get their numbers, compiling gives the same error, or the same program but for the
numbers. -/
theorem Compiler.renumbers_of_compileIn {c : Compiler} (hcarry : ∀ entry ∈ c.overrides, entry.2.CarriesNothing)
    (order order' : LiteralOrder) (start : String) :
    (∃ error, c.compileIn order start = .error error ∧ c.compileIn order' start = .error error) ∨
      ∃ p q, c.compileIn order start = .ok p ∧ c.compileIn order' start = .ok q ∧ p.Renumbers q := by
  rw [compileIn, compileIn]
  cases c.grammar.lookup start with
  | none => exact .inl ⟨_, rfl, rfl⟩
  | some definition =>
    dsimp only
    have htwins : Twins AlikeParsers (ruleIn order c (fuelFor c) definition start)
        (ruleIn order' c (fuelFor c) definition start) := twins_ruleIn hcarry (fuelFor c) definition start
    have htwinned := htwins _ _ (order.twin_start order')
    generalize (ruleIn order c (fuelFor c) definition start).result order.start = result at htwinned ⊢
    generalize (ruleIn order' c (fuelFor c) definition start).result order'.start = result' at htwinned ⊢
    cases htwinned with
    | failed => exact .inl ⟨_, rfl, rfl⟩
    | @ok _ _ s s' hs =>
      dsimp only
      rw [RuleTable.id?_of_alike hs.rules]
      cases s.table.id? start with
      | none => exact .inl ⟨_, rfl, rfl⟩
      | some id =>
        dsimp only
        rcases RuleTable.finish_of_alike hs.rules with
          ⟨error, hfails, hfails'⟩ | ⟨rules, rules', hrules, hrules', halike⟩
        · rw [hfails, hfails']
          exact .inl ⟨error, rfl, rfl⟩
        · rw [hrules, hrules']
          exact .inr ⟨_, _, rfl, rfl, halike, rfl, foldl_nesting_of_alike halike 0, rfl, rfl, rfl, hs.sound,
            hs.sound'⟩

end PegGrammar
