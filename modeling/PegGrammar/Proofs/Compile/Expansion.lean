import Mathlib
import PegGrammar.Proofs.Compile.Descent
import PegGrammar.Proofs.Compile.Faithful
import PegGrammar.Program.Basic

/-!
# Compiling comes to an end

A name gets its number before its definition is compiled, so no named rule is expanded while it is being
expanded already: inside of it, the name is in the table. Each rule that is entered therefore takes away one of
the names that are not in the table, and there are only so many of them.

The rule without a name has no number. It is put in place of each reference, again inside of itself if a
named rule in between leads back to it, and without end if its definition has itself as a part. With this
exception, to which the error about endless expansions is left, compiling comes to an end.
-/

namespace PegGrammar

def CompileError.isEndless : CompileError → Bool
  | .endlessExpansion _ => true
  | _ => false

/-- A text is somewhere in a definition, where it stands for a rule. -/
inductive Rule.Cites (name : String) : Rule → Prop
  | here : Cites name (.text name)
  | part {r part : Rule} : part ∈ r.shape.parts → Cites name part → Cites name r

theorem Rule.Node.cites {r node : Rule} {name : String} (h : r.Node node) (hnode : node = .text name) :
    r.Cites name := by
  induction h with
  | root => exact hnode ▸ .here
  | part hpart _ ih => exact .part hpart (ih hnode)

namespace Compiler

/-- A definition has a defined name in it, or leads to a definition that has. -/
inductive Leads (c : Compiler) (name : String) : Rule → Prop
  | cited {r definition : Rule} : r.Cites name → c.definition? name = some definition → Leads c name r
  | through {mid : String} {r definition : Rule} : r.Cites mid → c.definition? mid = some definition →
      Leads c name definition → Leads c name r

/-- The definition of the rule without a name has itself as a part. -/
def NamelessNests (c : Compiler) : Prop :=
  ∃ definition, c.definition? "" = some definition ∧ definition.Cites ""

/-- The rule without a name leads to itself, be it through other rules. -/
def NamelessLoops (c : Compiler) : Prop :=
  ∃ definition, c.definition? "" = some definition ∧ c.Leads "" definition

/-- How many entries of the grammar are not among some names. -/
def fresh (c : Compiler) (names : List String) : Nat :=
  (c.grammar.filter (fun entry => entry.1 ∉ names)).length

theorem fresh_le (c : Compiler) (names : List String) : c.fresh names ≤ c.grammar.length :=
  List.length_filter_le _ _

theorem fresh_append_lt {c : Compiler} {name : String} {definition : Rule} {names : List String}
    (hdefined : c.grammar.lookup name = some definition) (hnew : name ∉ names) :
    c.fresh (names ++ [name]) < c.fresh names := by
  have hentry := mem_of_lookup hdefined
  have hsplit : (c.grammar.filter (fun entry => entry.1 ∉ names ++ [name])) =
      (c.grammar.filter (fun entry => entry.1 ∉ names)).filter (fun entry => entry.1 ≠ name) := by
    rw [List.filter_filter]
    refine List.filter_congr fun entry _ => ?_
    simp only [List.mem_append, List.mem_singleton, not_or]
    by_cases h : entry.1 = name <;> simp [h]
  rw [fresh, fresh, hsplit]
  refine List.length_filter_lt_length_iff_exists.2 ⟨(name, definition), ?_, by simp⟩
  simp [hentry, hnew]

end Compiler

theorem Session.names_keeping (s : Session) (id : Nat) (name : String) (q : Parser) :
    (s.keeping id name q).names = s.names := by
  have hmodify : ∀ (rules : List (String × Option Parser)) (n : Nat),
      (rules.modify n (fun rule => (rule.1, some q))).map Prod.fst = rules.map Prod.fst := by
    intro rules n
    induction rules generalizing n with
    | nil => cases n <;> rfl
    | cons rule rules ih =>
      cases n with
      | zero => rfl
      | succ n => exact congrArg (rule.1 :: ·) (ih n)
  exact hmodify s.table.rules id

namespace Compiling

variable {α β : Type} {inv inner : List String → Prop} {allowed : CompileError → Prop}

/-- Two steps that do the same in all sessions whose names have some property. The property is kept, and only
some errors are given. -/
def SameUnder (inv : List String → Prop) (allowed : CompileError → Prop) (m m' : Compiling α) : Prop :=
  ∀ s : Session, inv s.names → m'.result s = m.result s ∧ inv (m.result s).2.names ∧
    ∀ error, (m.result s).1 = .error error → allowed error

theorem SameUnder.bind {m m' : Compiling α} {k k' : α → Compiling β} (hm : SameUnder inv allowed m m')
    (hk : ∀ a, SameUnder inv allowed (k a) (k' a)) :
    SameUnder inv allowed (m >>= k) (m' >>= k') := by
  intro s hs
  obtain ⟨hsame, hinv, hallowed⟩ := hm s hs
  rw [result_bind, result_bind, hsame]
  rcases hresult : m.result s with ⟨error | a, t⟩
  · rw [hresult] at hinv hallowed
    exact ⟨rfl, hinv, fun error' h => hallowed error' (by cases h; rfl)⟩
  · rw [hresult] at hinv
    exact hk a t hinv

theorem sameUnder_pure (a : α) : SameUnder inv allowed (pure a) (pure a) := by
  intro s hs
  exact ⟨rfl, hs, fun error h => by cases h⟩

/-! ### Errors of other kinds -/

/-- A step whose errors are not about endless expansions. -/
def Ends (m : Compiling α) : Prop :=
  ∀ s error, (m.result s).1 = .error error → error.isEndless = false

theorem ends_pure (a : α) : Ends (pure a) := fun _ _ h => by cases h

theorem ends_fail {error : String → CompileError} (h : ∀ name, (error name).isEndless = false) :
    Ends (fail error : Compiling α) := by
  intro s given hgiven
  cases hgiven
  exact h _

theorem Ends.bind {m : Compiling α} {k : α → Compiling β} (hm : Ends m) (hk : ∀ a, Ends (k a)) :
    Ends (m >>= k) := by
  intro s error h
  rw [result_bind] at h
  rcases hresult : m.result s with ⟨given | a, t⟩
  · rw [hresult] at h
    cases h
    exact hm s error (congrArg Prod.fst hresult)
  · rw [hresult] at h
    exact hk a t error h

theorem ends_note (detail : String) : Ends (note detail) := fun _ _ h => by cases h

theorem ends_checks (value : Rule) (keyword : Keyword) : Ends (checks value keyword) := by
  have hfields : ∀ keyword required optional, Ends (checkFields keyword value required optional) := by
    intro keyword required optional
    rw [checkFields.eq_def]
    split
    · split
      · exact ends_fail fun _ => rfl
      split
      · exact ends_fail fun _ => rfl
      split
      · exact ends_fail fun _ => rfl
      · exact ends_pure _
    · exact ends_fail fun _ => rfl
  have hflag : ∀ flag, Ends (checkFlag value flag) := by
    intro flag
    rw [checkFlag]
    split
    all_goals first
      | exact ends_pure _
      | exact ends_fail fun _ => rfl
  cases keyword
  case astNode =>
    refine (hfields _ _ _).bind fun _ => ?_
    split
    all_goals first
      | exact ends_pure _
      | exact ends_fail fun _ => rfl
  case astProp => exact (hfields _ _ _).bind fun _ => (hflag _).bind fun _ => hflag _
  all_goals exact ends_pure _

theorem ends_introduction (r : Rule) : Ends (introduction r) := by
  rw [introduction.eq_def]
  split
  · split
    · exact (ends_note _).bind fun _ => ends_checks _ _
    · exact ends_pure _
  · exact ends_pure _

theorem ends_literal (text : String) : Ends (literal text) := by
  rw [literal]
  split
  · exact ends_fail fun _ => rfl
  · exact ends_pure _

theorem ends_undefined (c : Compiler) (text : String) : Ends (undefined c text) := by
  rw [undefined]
  split
  · exact ends_pure _
  split
  · exact ends_pure _
  split
  · exact (ends_note _).bind fun _ => ends_literal _
  · exact ends_fail fun _ => rfl

theorem ends_branchLiterals (c : Compiler) (r : Rule) : Ends (branchLiterals c r) := by
  intro s error h
  rw [result_branchLiterals] at h
  dsimp only at h
  split at h
  · split at h <;> cases h
  · cases h

theorem isEndless_of_shape {r : Rule} {error : String → CompileError} (h : r.shape = .wrong error)
    (name : String) : (error name).isEndless = false := by
  have hlabelled : ∀ value keyword, Rule.shapeOf.labelled value keyword = .wrong error →
      (error name).isEndless = false := by
    intro value keyword h
    rw [Rule.shapeOf.labelled.eq_def] at h
    split at h
    · split at h <;> cases h
      rfl
    · cases h
      rfl
  have hcombinator : ∀ value keyword, Rule.shapeOf value keyword = .wrong error →
      (error name).isEndless = false := by
    intro value keyword h
    cases keyword <;> simp only [Rule.shapeOf] at h
    case astNode => exact hlabelled _ _ h
    case astProp => exact hlabelled _ _ h
    all_goals first
      | cases h
      | (split at h <;> cases h; rfl)
  rw [Rule.shape.eq_def] at h
  split at h
  · cases h
  · cases h
  · split at h
    · exact hcombinator _ _ h
    · split at h <;> cases h <;> rfl
  · cases h
    rfl

theorem SameUnder.of_passive {m : Compiling α} (hm : Passive m) (hends : Ends m)
    (hallowed : ∀ error : CompileError, error.isEndless = false → allowed error) :
    SameUnder inv allowed m m := by
  intro s hs
  have htable : (m.result s).2.table = s.table := (hm.unchanged rfl).1
  refine ⟨rfl, ?_, fun error h => hallowed error (hends s error h)⟩
  rw [Session.names, htable]
  exact hs

/-! ### Definitions -/

section

variable {c : Compiler} {ofRule ofRule' : Rule → String → Compiling Parser}

theorem sameUnder_branchLiterals
    (hallowed : ∀ error : CompileError, error.isEndless = false → allowed error) (r : Rule) :
    SameUnder inv allowed (branchLiterals c r) (branchLiterals c r) := by
  intro s hs
  refine ⟨rfl, ?_, fun error h => hallowed error (ends_branchLiterals c r s error h)⟩
  rw [result_branchLiterals]
  dsimp only
  split
  · split <;> exact hs
  · exact hs

theorem sameUnder_reference
    (hallowed : ∀ error : CompileError, error.isEndless = false → allowed error) {name : String}
    (hrule : ∀ definition, c.definition? name = some definition →
      SameUnder inv allowed (ofRule definition name) (ofRule' definition name)) :
    SameUnder inv allowed (reference c ofRule name) (reference c ofRule' name) := by
  rw [reference_eq, reference_eq]
  cases hreplaced : c.overrides.lookup name with
  | some replacement =>
    have hpassive : Passive (note ("`" ++ name ++ "` is overridden") >>= fun _ => pure replacement) :=
      (passive_note _).bind fun _ => passive_pure _
    exact .of_passive hpassive ((ends_note _).bind fun _ => ends_pure _) hallowed
  | none =>
    cases hdefined : c.grammar.lookup name with
    | none => exact .of_passive (passive_undefined c name) (ends_undefined c name) hallowed
    | some definition => exact hrule definition (Compiler.definition?_eq_some hreplaced hdefined)

theorem ends_leaf {r : Rule} (hparts : r.shape.parts = []) (hreference : ∀ name, r.shape ≠ .reference name) :
    Ends (layer c ofRule r.shape) := by
  cases hshape : r.shape with
  | reference name => exact (hreference name hshape).elim
  | sequence items =>
    have hitems : items = [] := (congrArg Rule.Shape.parts hshape).symm.trans hparts
    dsimp only [layer]
    rw [hitems, bodies_nil, pure_bind]
    exact ends_pure _
  | choice rules =>
    have hrules : rules = [] := (congrArg Rule.Shape.parts hshape).symm.trans hparts
    dsimp only [layer]
    rw [hrules, branches_nil, pure_bind]
    exact ends_pure _
  | literal text => exact ends_literal text
  | regex source =>
    dsimp only [layer]
    split
    · exact ends_pure _
    · exact ends_fail fun _ => rfl
  | eof => exact ends_pure _
  | indent => exact ends_pure _
  | script source =>
    dsimp only [layer]
    split
    · exact ends_pure _
    · exact ends_fail fun _ => rfl
  | wrong error => exact ends_fail (isEndless_of_shape hshape)
  | _ =>
    rw [hshape] at hparts
    cases hparts

/-- Two ways to compile rules that do the same for the names in a definition do the same for the definition. -/
theorem sameUnder_body
    (hallowed : ∀ error : CompileError, error.isEndless = false → allowed error) (r : Rule)
    (hrule : ∀ name definition, r.Cites name → c.definition? name = some definition →
      SameUnder inv allowed (ofRule definition name) (ofRule' definition name)) :
    SameUnder inv allowed (body c ofRule r) (body c ofRule' r) := by
  have hcongruence : Congruence (SameUnder inv allowed) := ⟨sameUnder_pure, SameUnder.bind⟩
  refine hcongruence.body ofRule ofRule' (sameUnder_branchLiterals hallowed) r
    (fun node _ => .of_passive (passive_introduction node) (ends_introduction node) hallowed)
    fun node hnode hparts => ?_
  by_cases hreference : ∃ name, node.shape = .reference name
  · obtain ⟨name, hname⟩ := hreference
    rw [hname]
    have hcites := hnode.cites (Rule.eq_text_of_shape hname)
    exact sameUnder_reference hallowed fun definition => hrule name definition hcites
  · have hnot : ∀ name, node.shape ≠ .reference name := fun name h => hreference ⟨name, h⟩
    obtain ⟨hpassive, hsame⟩ := passive_leaf hparts hnot ofRule ofRule'
    rw [hsame]
    exact .of_passive hpassive (ends_leaf hparts hnot) hallowed

end

/-! ### Rules -/

theorem SameUnder.named {name : String} {m m' : Compiling Parser} (h : SameUnder inner allowed m m')
    (henter : ∀ names, inv names → name ∉ names → inner (names ++ [name]))
    (hleave : ∀ names, inner names → inv names) :
    SameUnder inv allowed (named name m) (named name m') := by
  intro s hs
  rw [result_named, result_named]
  cases hid : s.table.id? name with
  | some id => exact ⟨rfl, hs, fun error h => by cases h⟩
  | none =>
    have hentered : (s.entering name).names = s.names ++ [name] := List.map_append
    obtain ⟨hsame, hinv, hallowed⟩ := h (s.entering name)
      (hentered ▸ henter s.names hs (not_mem_names_of_id? hid))
    dsimp only
    rw [hsame]
    rcases hresult : m.result (s.entering name) with ⟨error | q, t⟩
    · rw [hresult] at hinv hallowed
      exact ⟨rfl, hleave _ hinv, fun given hgiven => hallowed given (by cases hgiven; rfl)⟩
    · rw [hresult] at hinv
      have hnames : (t.leaving.keeping s.table.size name q).names = t.names :=
        Session.names_keeping _ _ _ _
      refine ⟨rfl, ?_, fun given hgiven => by cases hgiven⟩
      dsimp only
      rw [hnames]
      exact hleave _ hinv

variable {c : Compiler}

/-- Only so many rules can be entered inside of each other, so more fuel changes nothing. -/
theorem sameUnder_body_of_fuel (hnests : ¬ c.NamelessNests) (k : Nat) :
    ∀ fuel fuel', 2 * k ≤ fuel → 2 * k ≤ fuel' → ∀ r,
      SameUnder (c.fresh · < k) (·.isEndless = false) (body c (rule c fuel) r) (body c (rule c fuel') r) := by
  induction k with
  | zero =>
    intro fuel fuel' _ _ r s hs
    exact (Nat.not_lt_zero _ hs).elim
  | succ k ih =>
    have hnamed : ∀ fuel fuel', 2 * k + 1 ≤ fuel → 2 * k + 1 ≤ fuel' → ∀ name definition, name ≠ "" →
        c.definition? name = some definition →
        SameUnder (c.fresh · < k + 1) (·.isEndless = false) (rule c fuel definition name)
          (rule c fuel' definition name) := by
      intro fuel fuel' hfuel hfuel' name definition hne hdefined
      obtain ⟨fuel, rfl⟩ := Nat.exists_eq_add_of_le' (Nat.le_of_add_left_le hfuel)
      obtain ⟨fuel', rfl⟩ := Nat.exists_eq_add_of_le' (Nat.le_of_add_left_le hfuel')
      rw [rule, rule, if_neg hne, if_neg hne]
      have hbody := ih fuel fuel' (by omega) (by omega) definition
      refine (hbody.named (fun names hnames hnew => ?_) (fun names hnames => ?_)).bind
        fun _ => sameUnder_pure _
      · have hlt := Compiler.fresh_append_lt (Compiler.lookup_of_definition? hdefined).2 hnew
        omega
      · exact Nat.lt_succ_of_lt hnames
    intro fuel fuel' hfuel hfuel' r
    refine sameUnder_body (fun _ h => h) r fun name definition _ hdefined => ?_
    by_cases hname : name = ""
    · subst hname
      obtain ⟨fuel, rfl⟩ := Nat.exists_eq_add_of_le' (show 1 ≤ fuel by omega)
      obtain ⟨fuel', rfl⟩ := Nat.exists_eq_add_of_le' (show 1 ≤ fuel' by omega)
      rw [rule, rule, if_pos rfl, if_pos rfl]
      refine sameUnder_body (fun _ h => h) definition fun name inner hcites hinner => ?_
      have hne : name ≠ "" := fun h => hnests ⟨definition, hdefined, h ▸ hcites⟩
      exact hnamed fuel fuel' (by omega) (by omega) name inner hne hinner
    · exact hnamed fuel fuel' (by omega) (by omega) name definition hname hdefined

theorem sameUnder_rule_of_fuel (hnests : ¬ c.NamelessNests) {fuel : Nat} (hfuel : fuelFor c ≤ fuel)
    (definition : Rule) (name : String) :
    SameUnder (fun _ => True) (·.isEndless = false) (rule c (fuelFor c) definition name)
      (rule c fuel definition name) := by
  obtain ⟨more, rfl⟩ := Nat.exists_eq_add_of_le' (show 1 ≤ fuel from Nat.le_of_add_left_le hfuel)
  have hbody : SameUnder (fun _ => True) (·.isEndless = false)
      (body c (rule c (2 * c.grammar.length + 2)) definition) (body c (rule c more) definition) := by
    intro s _
    rw [fuelFor] at hfuel
    obtain ⟨hsame, -, hends⟩ := sameUnder_body_of_fuel hnests (c.grammar.length + 1)
      (2 * c.grammar.length + 2) more (by omega) (by omega) definition s
      (Nat.lt_succ_of_le (c.fresh_le s.names))
    exact ⟨hsame, trivial, hends⟩
  rw [fuelFor, rule, rule]
  split
  · exact hbody
  · exact (hbody.named (fun _ _ _ => trivial) (fun _ _ => trivial)).bind fun _ => sameUnder_pure _

/-! ### Watched expansions -/

/-- Steps to take where a rule would be expanded inside of itself, for the names that are watched. -/
abbrev Alarm := String → Option (Compiling Parser)

/-- The expansion of a rule, while others are being expanded. -/
def Alarm.guard (alarm : Alarm) (expanding : List String) (name : String) (expand : Compiling Parser) :
    Compiling Parser :=
  match alarm name with
  | some step => if name ∈ expanding then step else expand
  | none => expand

theorem Alarm.guard_eq {alarm : Alarm} {expanding : List String} {name : String}
    (h : alarm name = none ∨ name ∉ expanding) (expand : Compiling Parser) :
    alarm.guard expanding name expand = expand := by
  rw [guard]
  split
  · rename_i halarm
    rcases h with h | h
    · rw [h] at halarm
      cases halarm
    · exact if_neg h
  · rfl

/-- Compiling rules with an eye on those that are being expanded, innermost first. -/
def watched (c : Compiler) (alarm : Alarm) : Nat → List String → Rule → String → Compiling Parser
  | 0, _, _, _ => fail .endlessExpansion
  | fuel + 1, expanding, definition, name =>
    let compile := alarm.guard expanding name
      (body c (watched c alarm fuel (name :: expanding)) definition)
    if name = "" then compile else do pure (.rule (← named name compile))

/-- If a definition leads to the rule without a name, then that is neither being expanded nor leads to itself. -/
def Calm (c : Compiler) (expanding : List String) (r : Rule) : Prop :=
  c.Leads "" r → "" ∉ expanding ∧ ¬ c.NamelessLoops

/-- No alarm is ever raised: a name that is being expanded is in the table, and the rule without a name is not
watched or does not lead to itself. -/
theorem sameUnder_watched {alarm : Alarm} (fuel : Nat)
    {expanding : List String} {definition : Rule} {name : String}
    (hcalm : alarm "" = none ∨ Calm c expanding definition ∧
      (name = "" → "" ∉ expanding ∧ ¬ c.Leads "" definition)) :
    SameUnder (fun names => ∀ name ∈ expanding, name ≠ "" → name ∈ names) (fun _ => True)
      (rule c fuel definition name) (watched c alarm fuel expanding definition name) := by
  induction fuel generalizing expanding definition name with
  | zero => exact fun s hs => ⟨rfl, hs, fun _ _ => trivial⟩
  | succ fuel ih =>
    have hbody : SameUnder (fun names => ∀ other ∈ name :: expanding, other ≠ "" → other ∈ names)
        (fun _ => True) (body c (rule c fuel) definition)
        (body c (watched c alarm fuel (name :: expanding)) definition) := by
      refine sameUnder_body (fun _ _ => trivial) definition fun other inner hcites hinner => ih ?_
      rcases hcalm with hnone | ⟨hcalm, hempty⟩
      · exact .inl hnone
      have hinside : Calm c (name :: expanding) definition := by
        intro hleads
        obtain ⟨hnot, hloops⟩ := hcalm hleads
        refine ⟨fun hmem => ?_, hloops⟩
        rcases List.mem_cons.1 hmem with hname | hmem
        · exact (hempty hname.symm).2 hleads
        · exact hnot hmem
      refine .inr ⟨fun hleads => hinside (.through hcites hinner hleads), ?_⟩
      rintro rfl
      obtain ⟨hnot, hloops⟩ := hinside (.cited hcites hinner)
      exact ⟨hnot, fun hleads => hloops ⟨inner, hinner, hleads⟩⟩
    rw [rule, watched]
    by_cases hname : name = ""
    · subst hname
      have hquiet : alarm "" = none ∨ "" ∉ expanding := hcalm.imp_right fun h => (h.2 rfl).1
      rw [if_pos rfl, if_pos rfl, Alarm.guard_eq hquiet]
      intro s hs
      obtain ⟨hsame, hinv, -⟩ := hbody s fun other hmem hne =>
        hs other ((List.mem_cons.1 hmem).resolve_left hne) hne
      exact ⟨hsame, fun other hmem => hinv other (List.mem_cons_of_mem _ hmem), fun _ _ => trivial⟩
    · rw [if_neg hname, if_neg hname]
      refine SameUnder.bind ?_ fun _ => sameUnder_pure _
      by_cases hmem : name ∈ expanding
      · have hnever : ∀ m m' : Compiling Parser, SameUnder (fun _ => False) (fun _ => True) m m' :=
          fun m m' s hs => hs.elim
        exact (hnever _ _).named (fun names hnames hnew => hnew (hnames name hmem hname))
          (fun names hfalse => hfalse.elim)
      · rw [Alarm.guard_eq (.inr hmem)]
        refine hbody.named (fun names hnames _ other hother hne => ?_) (fun names hnames other hother => ?_)
        · rcases List.mem_cons.1 hother with rfl | hother
          · exact List.mem_append_right _ (List.mem_singleton_self _)
          · exact List.mem_append_left _ (hnames other hother hne)
        · exact hnames other (List.mem_cons_of_mem _ hother)

end Compiling

theorem Compiler.Leads.defined {c : Compiler} {name : String} {r : Rule} (h : c.Leads name r) :
    ∃ definition, c.definition? name = some definition := by
  induction h with
  | cited _ hdefined => exact ⟨_, hdefined⟩
  | through _ _ _ ih => exact ih

theorem RuleTable.isEndless_of_finish {t : RuleTable} {error : CompileError}
    (h : t.finish = .error error) : error.isEndless = false := by
  obtain ⟨rules⟩ := t
  induction rules with
  | nil => cases h
  | cons rule rules ih =>
    obtain ⟨name, _ | body⟩ := rule
    · rw [finish, List.mapM_cons] at h
      cases h
      rfl
    · have hcons : (mk ((name, some body) :: rules)).finish =
          (mk rules).finish >>= fun rest => .ok (⟨name, body⟩ :: rest) := by
        rw [finish, List.mapM_cons]
        rfl
      rw [hcons] at h
      cases hrest : (mk rules).finish with
      | error given =>
        rw [hrest] at h
        cases h
        exact ih hrest
      | ok rest =>
        rw [hrest] at h
        cases h

open Compiling

/-- Compiling recursive rules comes to an end. A rule is never expanded while it is being expanded, with the one
exception of a rule without a name that leads to itself: it makes no difference which alarms there are. And unless the
definition of the rule without a name has itself as a part, no more rules are ever entered inside of each other
than there is fuel for, so that more fuel changes nothing and compiling gives a program or an error of another
kind. -/
theorem Compiler.expansion_ends (c : Compiler) (start : String) :
    (∀ definition, c.grammar.lookup start = some definition → ∀ s : Session,
      (∀ alarm : Alarm, alarm "" = none ∨ ¬ c.NamelessLoops → ∀ fuel,
        (watched c alarm fuel [] definition start).result s =
          (rule c fuel definition start).result s) ∧
      (¬ c.NamelessNests → ∀ fuel, fuelFor c ≤ fuel →
        (rule c fuel definition start).result s = s.compileRule c definition start)) ∧
    (¬ c.NamelessNests → ∀ error, (c.compile start).1 = .error error → error.isEndless = false) := by
  refine ⟨fun definition hdefined s => ⟨fun alarm halarm fuel => ?_, fun hnests fuel hfuel => ?_⟩, ?_⟩
  · have hcalm : alarm "" = none ∨ Calm c [] definition ∧
        (start = "" → "" ∉ [] ∧ ¬ c.Leads "" definition) := by
      refine halarm.imp_right fun hloops => ⟨fun _ => ⟨List.not_mem_nil, hloops⟩, ?_⟩
      rintro rfl
      refine ⟨List.not_mem_nil, fun hleads => hloops ⟨definition, ?_, hleads⟩⟩
      obtain ⟨other, hother⟩ := hleads.defined
      cases hdefined.symm.trans (lookup_of_definition? hother).2
      exact hother
    exact (sameUnder_watched fuel hcalm s (fun _ hmem => nomatch hmem)).1
  · exact (sameUnder_rule_of_fuel hnests hfuel definition start s trivial).1
  · intro hnests error herror
    rw [compile] at herror
    split at herror
    · cases herror
      rfl
    rename_i definition _
    have hends := (sameUnder_rule_of_fuel hnests (Nat.le_refl _) definition start .start trivial).2.2
    change ∀ error, (Session.start.compileRule c definition start).1 = .error error → _ at hends
    rcases hresult : Session.start.compileRule c definition start with ⟨given | q, s⟩
    · rw [hresult] at herror hends
      cases herror
      exact hends error rfl
    rw [hresult] at herror
    dsimp only at herror
    split at herror
    · cases herror
      rfl
    split at herror
    · rename_i hfinish
      cases herror
      exact RuleTable.isEndless_of_finish hfinish
    · cases herror

/-- Words with gaps between them, where the gap is the rule without a name. -/
def Compiler.words : Compiler where
  grammar := [("", .combinator "$literal" (.text " ")), ("word", .combinator "$literal" (.text "w")),
    ("words", .list [.text "word", .combinator "$optional" (.list [.text "", .text "words"])])]
  fingerprint := ⟨[]⟩
  scripts := .none
  config := { Config.default with pruneAlternatives := false }
  overrides := []

def Program.words : Program where
  rules := [
    ⟨"words", .sequence [.rule 1, .optional (.sequence [.literal " ", .rule 0])]⟩, ⟨"word", .literal "w"⟩]
  start := 0
  nesting := 4
  literals := .empty 0
  scripts := .none
  config := Compiler.words.config
  fingerprint := ⟨[]⟩

theorem Rule.not_cites_literal (name text : String) :
    ¬ (Rule.combinator "$literal" (.text text)).Cites name := by
  intro h
  cases h with
  | part hpart => cases hpart

theorem Compiler.expansion_ends_words :
    ¬ words.NamelessLoops ∧ ¬ words.NamelessNests ∧ (words.compile "words").1 = .ok Program.words ∧
      ∃ definition, words.grammar.lookup "words" = some definition ∧
        (Compiling.watched words (fun _ => some (Compiling.fail .endlessExpansion))
          (Compiling.fuelFor words) [] definition "words").result .start =
            Session.start.compileRule words definition "words" := by
  have hnameless : words.definition? "" = some (.combinator "$literal" (.text " ")) := rfl
  have hnests : ¬ words.NamelessNests := by
    rintro ⟨definition, hdefined, hcites⟩
    cases hnameless.symm.trans hdefined
    exact Rule.not_cites_literal _ _ hcites
  have hloops : ¬ words.NamelessLoops := by
    rintro ⟨definition, hdefined, hleads⟩
    cases hnameless.symm.trans hdefined
    cases hleads with
    | cited hcites => exact Rule.not_cites_literal _ _ hcites
    | through hcites => exact Rule.not_cites_literal _ _ hcites
  have hcompiled : (words.compile "words").1 = .ok Program.words := by cbv
  obtain ⟨hsession, -⟩ := expansion_ends words "words"
  obtain ⟨hwatched, hfuel⟩ := hsession _ rfl .start
  refine ⟨hloops, hnests, hcompiled, _, rfl, ?_⟩
  rw [hwatched _ (.inr hloops), hfuel hnests _ (Nat.le_refl _)]

/-- A grammar in which the rule without a name is its own only part. -/
def Compiler.mirror : Compiler :=
  { words with grammar := [("", .list [.text ""]), ("s", .text "")] }

/-- A grammar in which the rule without a name leads to itself through another. -/
def Compiler.spiral : Compiler :=
  { words with grammar := [("", .list [.text "a"]), ("a", .list [.text ""]), ("s", .text "")] }

/-- The rule without a name is expanded inside of itself: once more below the rule that leads back to it, and
without end where nothing with a name lies in between. -/
theorem Compiler.nameless_expanded_again :
    ((Compiling.watched spiral (fun _ => some (Compiling.fail .endlessExpansion))
      (Compiling.fuelFor spiral) [] (.text "") "s").result .start).1 = .error (.endlessExpansion "a") ∧
    (spiral.compile "s").1.map Program.rules =
      .ok [⟨"s", .sequence [.rule 1]⟩, ⟨"a", .sequence [.sequence [.rule 1]]⟩] ∧
    (mirror.compile "s").1.map Program.rules = .error (.endlessExpansion "s") := by
  refine ⟨?_, ?_, ?_⟩
  all_goals cbv

end PegGrammar
