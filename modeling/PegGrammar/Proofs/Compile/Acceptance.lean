import Mathlib
import PegGrammar.Proofs.Compile.Expansion
import PegGrammar.Proofs.Compile.Table
import PegGrammar.Proofs.Compile.WellFormed

/-!
# What the compiler accepts

A definition compiles only if it is well-formed, whatever the rules that it names compile to, so every rule that
a session has finished has a well-formed definition. The other way round, a well-formed definition gives rise to no
error of its own: an error is one of a rule that it names, or there was not enough fuel, which never happens in a
grammar without a nameless rule. Since a session finishes just the rules that can be reached, a grammar is
accepted if the definitions of these are well-formed.
-/

namespace PegGrammar

theorem Compiler.mentions_of_cites {c : Compiler} (hnameless : c.grammar.lookup "" = none) {r definition : Rule}
    {name : String} (h : r.Cites name) (hdefined : c.definition? name = some definition) : c.Mentions r name := by
  induction h with
  | here =>
    refine .here hdefined fun hempty => ?_
    cases hnameless.symm.trans (hempty ▸ (lookup_of_definition? hdefined).2)
  | part hpart _ ih => exact .part hpart ih

theorem RuleTable.names_of_finish {t : RuleTable} {rules : List CompiledRule} (h : t.finish = .ok rules) :
    t.rules.map Prod.fst = rules.map CompiledRule.name := by
  rw [rules_of_finish h, List.map_map]
  rfl

namespace Compiling

variable {α β : Type}

/-- A step that gives a value. -/
def Succeeds (m : Compiling α) (s : Session) : Prop := ∃ a t, m.result s = (.ok a, t)

theorem succeeds_pure (a : α) (s : Session) : Succeeds (pure a) s := ⟨a, s, rfl⟩

theorem not_succeeds_fail (error : String → CompileError) (s : Session) :
    ¬ Succeeds (fail error : Compiling α) s := by
  rintro ⟨a, t, h⟩
  cases h

theorem succeeds_bind_iff {m : Compiling α} {k : α → Compiling β} {s : Session} :
    Succeeds (m >>= k) s ↔ ∃ a t, m.result s = (.ok a, t) ∧ Succeeds (k a) t := by
  constructor
  · rintro ⟨b, u, h⟩
    obtain ⟨a, t, hm, hk⟩ := result_bind_eq_ok.1 h
    exact ⟨a, t, hm, b, u, hk⟩
  · rintro ⟨a, t, hm, b, u, hk⟩
    exact ⟨b, u, result_bind_eq_ok.2 ⟨a, t, hm, hk⟩⟩

/-! ### Checks -/

/-- Two checks one behind the other pass if both do, when they pass or do not wherever they are made. -/
theorem succeeds_check_bind_iff {m k : Compiling Unit} {P Q : Prop} (hm : ∀ s, Succeeds m s ↔ P)
    (hk : ∀ s, Succeeds k s ↔ Q) (s : Session) : Succeeds (m >>= fun _ => k) s ↔ P ∧ Q := by
  rw [succeeds_bind_iff]
  constructor
  · rintro ⟨_, t, hresult, hnext⟩
    exact ⟨(hm s).1 ⟨_, t, hresult⟩, (hk t).1 hnext⟩
  · rintro ⟨hp, hq⟩
    obtain ⟨_, t, hresult⟩ := (hm s).2 hp
    exact ⟨_, t, hresult, (hk t).2 hq⟩

theorem succeeds_checkFields_iff (keyword : Keyword) (entries : List (String × Rule)) (required : String)
    (optional : List String) (s : Session) :
    Succeeds (checkFields keyword (.map entries) required optional) s ↔
      ∃ part, Rule.Annotates entries part required optional := by
  dsimp only [checkFields]
  cases hvalue : entries.lookup "value" with
  | none =>
    rw [if_pos Option.isNone_none]
    refine iff_of_false (not_succeeds_fail _ s) fun ⟨part, hannotates⟩ => ?_
    cases hvalue.symm.trans hannotates.value
  | some part =>
    rw [if_neg (by simp)]
    cases htext : (entries.lookup required).bind Rule.asText? with
    | none =>
      rw [if_pos Option.isNone_none]
      refine iff_of_false (not_succeeds_fail _ s) fun ⟨part, hannotates⟩ => ?_
      obtain ⟨text, hfield⟩ := hannotates.field
      rw [hfield] at htext
      cases htext
    | some text =>
      rw [if_neg (by simp)]
      have hfield : ∃ text, entries.lookup required = some (.text text) := by
        obtain ⟨value, hlookup, hvalue⟩ := Option.bind_eq_some_iff.1 htext
        cases value with
        | text name => exact ⟨name, hlookup⟩
        | list items => cases hvalue
        | map fields => cases hvalue
      split
      · rename_i key value hunknown
        refine iff_of_false (not_succeeds_fail _ s) fun ⟨part, hannotates⟩ => ?_
        have hknown := hannotates.known _ (List.mem_of_find?_eq_some hunknown)
        have hforeign := List.find?_some hunknown
        exact of_decide_eq_true hforeign hknown
      · rename_i hknown
        refine iff_of_true (succeeds_pure _ s) ⟨part, hvalue, hfield, fun entry hentry => ?_⟩
        have hforeign := List.find?_eq_none.1 hknown entry hentry
        exact Decidable.of_not_not fun h => hforeign (decide_eq_true h)

theorem not_succeeds_checkFields {value : Rule} (hvalue : ∀ entries, value ≠ .map entries) (keyword : Keyword)
    (required : String) (optional : List String) (s : Session) :
    ¬ Succeeds (checkFields keyword value required optional) s := by
  cases value with
  | map entries => exact (hvalue entries rfl).elim
  | text name =>
    dsimp only [checkFields]
    exact not_succeeds_fail _ s
  | list items =>
    dsimp only [checkFields]
    exact not_succeeds_fail _ s

theorem succeeds_checkFlag_iff (entries : List (String × Rule)) (flag : String) (s : Session) :
    Succeeds (checkFlag (.map entries) flag) s ↔
      ∀ value, entries.lookup flag = some value → value ∈ [.text "true", .text "false"] := by
  rw [checkFlag]
  have hfield : (Rule.map entries).field? flag = entries.lookup flag := rfl
  rw [hfield]
  split
  · rename_i hnone
    refine iff_of_true (succeeds_pure _ s) fun value hvalue => ?_
    cases hnone.symm.trans hvalue
  · rename_i htrue
    refine iff_of_true (succeeds_pure _ s) fun value hvalue => ?_
    cases htrue.symm.trans hvalue
    exact List.mem_cons_self
  · rename_i hfalse
    refine iff_of_true (succeeds_pure _ s) fun value hvalue => ?_
    cases hfalse.symm.trans hvalue
    exact List.mem_cons_of_mem _ List.mem_cons_self
  · rename_i value htrue hfalse hvalue
    refine iff_of_false (not_succeeds_fail _ s) fun hflag => ?_
    have hmem := hflag value hvalue
    simp only [List.mem_cons, List.not_mem_nil, or_false] at hmem
    rcases hmem with rfl | rfl
    · exact htrue rfl
    · exact hfalse rfl

theorem succeeds_checkNode_iff (entries : List (String × Rule)) (s : Session) :
    Succeeds (checkNode (.map entries)) s ↔
      (∃ part, Rule.Annotates entries part "type" ["properties"]) ∧
        ∀ value, entries.lookup "properties" = some value → ∃ properties, value = .map properties := by
  refine succeeds_check_bind_iff (succeeds_checkFields_iff _ _ _ _) (fun t => ?_) s
  have hfield : (Rule.map entries).field? "properties" = entries.lookup "properties" := rfl
  rw [hfield]
  split
  · rename_i hnone
    exact iff_of_true (succeeds_pure _ t) fun value hvalue => nomatch hnone.symm.trans hvalue
  · rename_i properties hmap
    refine iff_of_true (succeeds_pure _ t) fun value hvalue => ?_
    cases hmap.symm.trans hvalue
    exact ⟨properties, rfl⟩
  · rename_i value hmap hvalue
    refine iff_of_false (not_succeeds_fail _ t) fun hproperties => ?_
    obtain ⟨properties, rfl⟩ := hproperties value hvalue
    exact hmap properties rfl

theorem succeeds_checkProperty_iff (entries : List (String × Rule)) (s : Session) :
    Succeeds (checkProperty (.map entries)) s ↔
      (∃ part, Rule.Annotates entries part "name" ["as-list", "as-literal"]) ∧
        ∀ flag ∈ ["as-list", "as-literal"], ∀ value, entries.lookup flag = some value →
          value ∈ [.text "true", .text "false"] := by
  have hflags := succeeds_check_bind_iff (succeeds_checkFlag_iff entries "as-list")
    (succeeds_checkFlag_iff entries "as-literal")
  rw [List.forall_mem_cons, List.forall_mem_singleton]
  exact succeeds_check_bind_iff (succeeds_checkFields_iff _ _ _ _) hflags s

theorem succeeds_checks_iff (value : Rule) (keyword : Keyword) (s : Session) :
    Succeeds (checks value keyword) s ↔ value.Labels keyword := by
  have hmapped {P : List (String × Rule) → Prop} {required : String} {optional : List String}
      {k : Unit → Compiling Unit}
      (hmap : ∀ entries, value = .map entries →
        (Succeeds (checkFields keyword value required optional >>= k) s ↔ P entries)) :
      Succeeds (checkFields keyword value required optional >>= k) s ↔ ∃ entries, value = .map entries ∧ P entries := by
    by_cases hvalue : ∃ entries, value = .map entries
    · obtain ⟨entries, hentries⟩ := hvalue
      rw [hmap entries hentries]
      refine ⟨fun h => ⟨entries, hentries, h⟩, fun ⟨other, hother, h⟩ => ?_⟩
      cases hentries.symm.trans hother
      exact h
    · refine iff_of_false (fun h => ?_) fun ⟨entries, hentries, _⟩ => hvalue ⟨entries, hentries⟩
      obtain ⟨_, t, hresult, -⟩ := succeeds_bind_iff.1 h
      exact not_succeeds_checkFields (fun entries h => hvalue ⟨entries, h⟩) _ _ _ s ⟨_, t, hresult⟩
  cases keyword
  case astNode =>
    refine hmapped fun entries hentries => ?_
    rw [hentries]
    exact succeeds_checkNode_iff entries s
  case astProp =>
    refine hmapped fun entries hentries => ?_
    rw [hentries]
    exact succeeds_checkProperty_iff entries s
  all_goals exact iff_of_true (succeeds_pure _ s) trivial

theorem succeeds_introduction_iff (r : Rule) (s : Session) :
    Succeeds (introduction r) s ↔ r.Labelled := by
  rcases r with text | items | (_ | ⟨⟨key, value⟩, _ | ⟨entry, more⟩⟩)
  case map.cons.nil =>
    rw [introduction, Rule.Labelled]
    cases hkey : Keyword.ofKey? key with
    | none =>
      refine iff_of_true (succeeds_pure _ s) fun keyword h => ?_
      cases h
    | some keyword =>
      have hnote : ∀ s, Succeeds (note ("compiling " ++ keyword.key)) s ↔ True :=
        fun s => iff_of_true ⟨_, _, rfl⟩ trivial
      dsimp only
      rw [succeeds_check_bind_iff hnote (succeeds_checks_iff value keyword), true_and]
      refine ⟨fun h other hother => ?_, fun h => h keyword rfl⟩
      cases hother
      exact h
  all_goals exact iff_of_true (succeeds_pure _ s) trivial

/-! ### Nodes -/

section

variable {c : Compiler} {ofRule : Rule → String → Compiling Parser}

theorem succeeds_leaf_iff {shape : Rule.Shape} (hparts : shape.parts = [])
    (hreference : ∀ name, shape ≠ .reference name) (s : Session) :
    Succeeds (layer c ofRule shape) s ↔ c.Fits shape := by
  cases shape with
  | reference name => exact (hreference name rfl).elim
  | sequence items =>
    cases (show items = [] from hparts)
    dsimp only [layer]
    rw [bodies_nil, pure_bind]
    exact iff_of_true (succeeds_pure _ s) trivial
  | choice rules =>
    cases (show rules = [] from hparts)
    dsimp only [layer]
    rw [branches_nil, pure_bind]
    exact iff_of_true (succeeds_pure _ s) trivial
  | literal text =>
    dsimp only [layer, literal]
    split
    · rename_i hempty
      exact iff_of_false (not_succeeds_fail _ s) fun hne => hne hempty
    · rename_i hne
      exact iff_of_true (succeeds_pure _ s) hne
  | regex source =>
    dsimp only [layer, Compiler.Fits]
    cases Parser.ofPattern? source with
    | none => exact iff_of_false (not_succeeds_fail _ s) (by decide)
    | some q => exact iff_of_true (succeeds_pure _ s) rfl
  | eof => exact iff_of_true (succeeds_pure _ s) trivial
  | indent => exact iff_of_true (succeeds_pure _ s) trivial
  | script source =>
    dsimp only [layer, Compiler.Fits]
    cases c.scripts.compile source with
    | ok handle => exact iff_of_true (succeeds_pure _ s) ⟨handle, rfl⟩
    | error reason => exact iff_of_false (not_succeeds_fail _ s) fun ⟨_, h⟩ => nomatch h
  | wrong error => exact iff_of_false (not_succeeds_fail _ s) id
  | _ => cases hparts

theorem succeeds_undefined_iff (text : String) (s : Session) :
    Succeeds (undefined c text) s ↔ (c.undefined? text).isSome = true := by
  constructor
  · rintro ⟨q, t, h⟩
    rw [undefined_eq_ok h]
    rfl
  · intro h
    rw [Compiler.undefined?] at h
    rw [undefined]
    split at h
    · rename_i heof
      exact if_pos heof ▸ succeeds_pure _ s
    rename_i heof
    rw [if_neg heof]
    split at h
    · rename_i hindent
      exact if_pos hindent ▸ succeeds_pure _ s
    rename_i hindent
    rw [if_neg hindent]
    split at h
    · rename_i hbare
      rw [if_pos hbare.1, literal, if_neg hbare.2]
      exact succeeds_bind_iff.2 ⟨_, _, rfl, succeeds_pure _ _⟩
    · cases h

theorem succeeds_parts {shape : Rule.Shape} {s : Session} (h : Succeeds (layer c ofRule shape) s) :
    ∀ part ∈ shape.parts, ∃ s, Succeeds (body c ofRule part) s := by
  have hbodies : ∀ {rules : List Rule} {s : Session}, Succeeds (bodies c ofRule rules) s →
      ∀ part ∈ rules, ∃ s, Succeeds (body c ofRule part) s := by
    intro rules
    induction rules with
    | nil => exact fun _ part hpart => nomatch hpart
    | cons r rules ih =>
      intro s h
      rw [bodies_cons] at h
      obtain ⟨_, t, hr, h⟩ := succeeds_bind_iff.1 h
      obtain ⟨_, _, hrules, -⟩ := succeeds_bind_iff.1 h
      exact List.forall_mem_cons.2 ⟨⟨s, _, _, hr⟩, ih ⟨_, _, hrules⟩⟩
  have hbranches : ∀ {rules : List Rule} {s : Session}, Succeeds (branches c ofRule rules) s →
      ∀ part ∈ rules, ∃ s, Succeeds (body c ofRule part) s := by
    intro rules
    induction rules with
    | nil => exact fun _ part hpart => nomatch hpart
    | cons r rules ih =>
      intro s h
      rw [branches_cons] at h
      obtain ⟨_, t, hr, h⟩ := succeeds_bind_iff.1 h
      obtain ⟨_, _, -, h⟩ := succeeds_bind_iff.1 h
      obtain ⟨_, _, hrules, -⟩ := succeeds_bind_iff.1 h
      exact List.forall_mem_cons.2 ⟨⟨s, _, _, hr⟩, ih ⟨_, _, hrules⟩⟩
  have hunary : ∀ {part : Rule} {wrap : Parser → Parser},
      Succeeds (body c ofRule part >>= fun q => pure (wrap q)) s →
      ∀ other ∈ [part], ∃ s, Succeeds (body c ofRule other) s := by
    intro part wrap h
    obtain ⟨_, t, hpart, -⟩ := succeeds_bind_iff.1 h
    exact List.forall_mem_singleton.2 ⟨s, _, _, hpart⟩
  cases shape with
  | sequence items =>
    obtain ⟨_, _, hitems, -⟩ := succeeds_bind_iff.1 h
    exact hbodies ⟨_, _, hitems⟩
  | choice rules =>
    obtain ⟨_, _, hrules, -⟩ := succeeds_bind_iff.1 h
    exact hbranches ⟨_, _, hrules⟩
  | repeated part => exact hunary h
  | ahead part => exact hunary h
  | notAhead part => exact hunary h
  | optional part => exact hunary h
  | annotated value => exact List.forall_mem_singleton.2 ⟨s, h⟩
  | _ => exact fun part hpart => nomatch hpart

theorem fits_of_reference {name : String} {s : Session} (h : Succeeds (reference c ofRule name) s) :
    c.Fits (.reference name) := by
  rw [reference_eq] at h
  cases hreplaced : c.overrides.lookup name with
  | some q => exact .inl ⟨q, hreplaced⟩
  | none =>
    rw [hreplaced] at h
    dsimp only at h
    cases hdefined : c.grammar.lookup name with
    | some definition => exact .inr (.inl ⟨definition, hdefined⟩)
    | none =>
      rw [hdefined] at h
      exact .inr (.inr ((succeeds_undefined_iff name s).1 h))

/-- Only what is well-formed compiles, whatever the rules that it names compile to. -/
theorem wellFormed_of_succeeds {r : Rule} {s : Session} (h : Succeeds (body c ofRule r) s) :
    c.WellFormed r := by
  induction r using Rule.induction_on_parts generalizing s with
  | step r ih =>
    rw [body_eq] at h
    obtain ⟨_, t, hintroduction, hlayer⟩ := succeeds_bind_iff.1 h
    have hlabelled := (succeeds_introduction_iff r s).1 ⟨_, _, hintroduction⟩
    refine .of_layer hlabelled ?_ fun part hpart => ?_
    · cases hshape : r.shape with
      | reference name =>
        rw [hshape] at hlayer
        exact fits_of_reference hlayer
      | sequence items => trivial
      | choice rules => trivial
      | repeated part => trivial
      | ahead part => trivial
      | notAhead part => trivial
      | optional part => trivial
      | annotated part => trivial
      | _ =>
        rw [hshape] at hlayer
        exact (succeeds_leaf_iff rfl (fun name h => by cases h) t).1 hlayer
    · obtain ⟨s, hs⟩ := succeeds_parts hlayer part hpart
      exact ih part hpart hs

end

/-! ### Only well-formed rules are finished -/

section

variable {c : Compiler}

/-- A step that finishes only rules with well-formed definitions. -/
def Vets (c : Compiler) (m : Compiling α) : Prop :=
  ∀ s a t, m.result s = (.ok a, t) → ∀ name ∈ t.names, name ∈ s.names ∨
    ∀ definition, c.grammar.lookup name = some definition → c.WellFormed definition

theorem Passive.vets {m : Compiling α} (hm : Passive m) : Vets c m := by
  intro s a t h name hname
  rw [Session.names, (hm.unchanged h).1] at hname
  exact .inl hname

theorem Vets.bind {m : Compiling α} {k : α → Compiling β} (hm : Vets c m) (hk : ∀ a, Vets c (k a)) :
    Vets c (m >>= k) := by
  intro s b u h name hname
  obtain ⟨a, t, hfirst, hsecond⟩ := result_bind_eq_ok.1 h
  rcases hk a t b u hsecond name hname with hmid | hgood
  · exact hm s a t hfirst name hmid
  · exact .inr hgood

theorem congruence_vets : Congruence (fun {_} m _ => Vets c m) :=
  ⟨fun a => (passive_pure a).vets, fun hm hk => hm.bind hk⟩

theorem vets_branchLiterals (r : Rule) : Vets c (branchLiterals c r) := by
  intro s first t h name hname
  obtain ⟨_, _, hresult, htable⟩ := exists_result_branchLiterals c r s
  cases hresult.symm.trans h
  rw [Session.names, htable] at hname
  exact .inl hname

theorem vets_body {ofRule : Rule → String → Compiling Parser}
    (hrule : ∀ name definition, c.definition? name = some definition → Vets c (ofRule definition name))
    (r : Rule) : Vets c (body c ofRule r) := by
  refine congruence_vets.body ofRule ofRule vets_branchLiterals r
    (fun node _ => (passive_introduction node).vets) fun node _ hparts => ?_
  by_cases hreference : ∃ name, node.shape = .reference name
  · obtain ⟨name, hname⟩ := hreference
    rw [hname]
    show Vets c (reference c ofRule name)
    rw [reference_eq]
    cases hreplaced : c.overrides.lookup name with
    | some q => exact ((passive_note _).bind fun _ => passive_pure _).vets
    | none =>
      cases hdefined : c.grammar.lookup name with
      | none => exact (passive_undefined c name).vets
      | some definition => exact hrule name definition (Compiler.definition?_eq_some hreplaced hdefined)
  · exact (passive_leaf hparts (fun name h => hreference ⟨name, h⟩) ofRule ofRule).1.vets

theorem vets_named {ofRule : Rule → String → Compiling Parser} {name : String} {definition : Rule}
    (hdefined : c.grammar.lookup name = some definition) (hbody : Vets c (body c ofRule definition)) :
    Vets c (named name (body c ofRule definition)) := by
  intro s id t h other hother
  rw [result_named] at h
  cases hid : s.table.id? name with
  | some known =>
    rw [hid] at h
    cases h
    exact .inl hother
  | none =>
    rw [hid] at h
    dsimp only at h
    rcases hinner : (body c ofRule definition).result (s.entering name) with ⟨error | q, inner⟩
    · rw [hinner] at h
      cases h
    rw [hinner] at h
    cases h
    rw [Session.names_keeping] at hother
    rcases hbody _ q inner hinner other hother with hentered | hgood
    · have hentering : (s.entering name).names = s.names ++ [name] := List.map_append
      rw [hentering] at hentered
      rcases List.mem_append.1 hentered with hold | hnew
      · exact .inl hold
      · refine .inr fun found hfound => ?_
        rw [List.mem_singleton.1 hnew] at hfound
        cases hdefined.symm.trans hfound
        exact wellFormed_of_succeeds ⟨q, inner, hinner⟩
    · exact .inr hgood

theorem vets_rule (fuel : Nat) {name : String} {definition : Rule}
    (hdefined : c.grammar.lookup name = some definition) : Vets c (rule c fuel definition name) := by
  induction fuel generalizing name definition with
  | zero => exact (passive_fail _).vets
  | succ fuel ih =>
    have hbody : Vets c (body c (rule c fuel) definition) :=
      vets_body (fun name definition h => ih (Compiler.lookup_of_definition? h).2) definition
    rw [rule]
    split
    · exact hbody
    · exact (vets_named hdefined hbody).bind fun _ => (passive_pure _).vets

end

/-! ### What is well-formed gives no errors -/

section

variable {c : Compiler}

/-- A step that fails only where there is not enough fuel. -/
def Safe (m : Compiling α) : Prop := ∀ s error, (m.result s).1 = .error error → error.isEndless = true

theorem Safe.of_succeeds {m : Compiling α} (h : ∀ s, Succeeds m s) : Safe m := by
  intro s error herror
  obtain ⟨a, t, hresult⟩ := h s
  rw [hresult] at herror
  cases herror

theorem Safe.bind {m : Compiling α} {k : α → Compiling β} (hm : Safe m) (hk : ∀ a, Safe (k a)) :
    Safe (m >>= k) := by
  intro s error h
  rw [result_bind] at h
  rcases hresult : m.result s with ⟨given | a, t⟩
  · rw [hresult] at h
    cases h
    exact hm s error (congrArg Prod.fst hresult)
  · rw [hresult] at h
    exact hk a t error h

theorem congruence_safe : Congruence (fun {_} m _ => Safe m) :=
  ⟨fun a => .of_succeeds (succeeds_pure a), fun hm hk => hm.bind hk⟩

theorem safe_branchLiterals (r : Rule) : Safe (branchLiterals c r) :=
  .of_succeeds fun s =>
    have ⟨first, t, hresult, _⟩ := exists_result_branchLiterals c r s
    ⟨first, t, hresult⟩

theorem WellFormed.node {r node : Rule} (h : c.WellFormed r) (hnode : r.Node node) : c.WellFormed node := by
  induction hnode with
  | root => exact h
  | part hpart _ ih => exact ih (h.layer.2.2 _ hpart)

/-- A well-formed definition compiles if the rules that it names do. -/
theorem safe_body {ofRule : Rule → String → Compiling Parser} {r : Rule} (hr : c.WellFormed r)
    (hrule : ∀ name definition, r.Cites name → c.definition? name = some definition →
      Safe (ofRule definition name)) : Safe (body c ofRule r) := by
  refine congruence_safe.body ofRule ofRule safe_branchLiterals r (fun node hnode => ?_)
    fun node hnode hparts => ?_
  · have hlabelled := (WellFormed.node hr hnode).layer.1
    exact .of_succeeds fun s => (succeeds_introduction_iff node s).2 hlabelled
  have hfits := (WellFormed.node hr hnode).layer.2.1
  by_cases hreference : ∃ name, node.shape = .reference name
  · obtain ⟨name, hname⟩ := hreference
    rw [hname] at hfits ⊢
    show Safe (reference c ofRule name)
    rw [reference_eq]
    cases hreplaced : c.overrides.lookup name with
    | some q => exact .of_succeeds fun s => succeeds_bind_iff.2 ⟨_, _, rfl, succeeds_pure _ _⟩
    | none =>
      cases hdefined : c.grammar.lookup name with
      | none =>
        rcases hfits with ⟨q, hq⟩ | ⟨definition, hdefinition⟩ | hundefined
        · cases hreplaced.symm.trans hq
        · cases hdefined.symm.trans hdefinition
        · exact .of_succeeds fun s => (succeeds_undefined_iff name s).2 hundefined
      | some definition =>
        exact hrule name definition (hnode.cites (Rule.eq_text_of_shape hname))
          (Compiler.definition?_eq_some hreplaced hdefined)
  · exact .of_succeeds fun s =>
      (succeeds_leaf_iff hparts (fun name h => hreference ⟨name, h⟩) s).2 hfits

theorem Safe.named {m : Compiling Parser} (h : Safe m) (name : String) : Safe (named name m) := by
  intro s error herror
  rw [result_named] at herror
  split at herror
  · cases herror
  · rcases hresult : m.result (s.entering name) with ⟨given | q, t⟩
    · rw [hresult] at herror
      cases herror
      exact h _ error (congrArg Prod.fst hresult)
    · rw [hresult] at herror
      cases herror

theorem safe_rule (hnameless : c.grammar.lookup "" = none) (fuel : Nat) {name : String} {definition : Rule}
    (hdefined : c.grammar.lookup name = some definition)
    (hreachable : ∀ other definition, Relation.ReflTransGen c.Refers name other →
      c.grammar.lookup other = some definition → c.WellFormed definition) :
    Safe (rule c fuel definition name) := by
  induction fuel generalizing name definition with
  | zero =>
    intro s error h
    cases h
    rfl
  | succ fuel ih =>
    have hbody : Safe (body c (rule c fuel) definition) := by
      refine safe_body (hreachable name definition .refl hdefined) fun other inner hcites hinner => ?_
      have hother := (Compiler.lookup_of_definition? hinner).2
      have hrefers : c.Refers name other :=
        ⟨definition, hdefined, Compiler.mentions_of_cites hnameless hcites hinner⟩
      exact ih hother fun further definition hpath => hreachable further definition (.head hrefers hpath)
    rw [rule]
    split
    · exact hbody
    · exact (hbody.named name).bind fun _ => .of_succeeds (succeeds_pure _)

end

end Compiling

open Compiling

/-- The compiler accepts just the well-formed grammars: it gives a program if the start is defined and every
definition that can be reached from it is well-formed, and an error otherwise. -/
theorem Compiler.accepts_iff_wellFormed (c : Compiler) (start : String) (hnameless : c.grammar.lookup "" = none) :
    (∃ p, (c.compile start).1 = .ok p) ↔
      (∃ definition, c.grammar.lookup start = some definition) ∧
        ∀ name definition, Relation.ReflTransGen c.Refers start name →
          c.grammar.lookup name = some definition → c.WellFormed definition := by
  constructor
  · rintro ⟨p, hp⟩
    obtain ⟨definition, q, s, rules, hdefined, hs, -, hfinish, -⟩ := exists_session_of_compile hp
    refine ⟨⟨definition, hdefined⟩, fun name found hreach hfound => ?_⟩
    obtain ⟨rules', hfinish', -, -, hmeets, -⟩ :=
      Session.rules_of_compileRule hdefined (ne_empty_of_compile hp) hs
    cases hfinish.symm.trans hfinish'
    have hmet := (hmeets.mem_iff hdefined (ne_empty_of_compile hp) name).2 hreach
    rw [← RuleTable.names_of_finish hfinish] at hmet
    rcases vets_rule (fuelFor c) hdefined .start q s hs name hmet with hnone | hgood
    · cases hnone
    · exact hgood found hfound
  · rintro ⟨⟨definition, hdefined⟩, hreachable⟩
    have hne : start ≠ "" := by
      rintro rfl
      cases hnameless.symm.trans hdefined
    have hnests : ¬ c.NamelessNests := by
      rintro ⟨nameless, hsome, -⟩
      cases hnameless.symm.trans (lookup_of_definition? hsome).2
    rcases hs : Session.start.compileRule c definition start with ⟨error | q, s⟩
    · have hendless := safe_rule hnameless (fuelFor c) hdefined hreachable .start error (congrArg Prod.fst hs)
      have hends := (sameUnder_rule_of_fuel hnests (Nat.le_refl _) definition start .start trivial).2.2 error
        (congrArg Prod.fst hs)
      cases hendless.symm.trans hends
    · obtain ⟨rules, hfinish, hid, -⟩ := Session.rules_of_compileRule hdefined hne hs
      rw [compile, hdefined]
      dsimp only
      rw [hs]
      dsimp only
      rw [hid]
      dsimp only
      rw [hfinish]
      exact ⟨_, rfl⟩

/-- A grammar of calls in calls, with a rule that nothing leads to and that is not well-formed. -/
def Compiler.calls : Compiler where
  grammar := [
    ("call", .combinator "$ast-node"
      (.map [("type", .text "call"), ("value", .list [.text "name", .combinator "$optional" (.text "tail")])])),
    ("name", .combinator "$or" (.list [.text "f", .text "g"])),
    ("tail", .combinator "$ast-prop"
      (.map [("as-list", .text "true"), ("name", .text "arguments"),
        ("value", .list [.text "(", .text "call", .text ")"])])),
    ("unused", .combinator "$or" (.list []))]
  fingerprint := ⟨[]⟩
  scripts := .none
  config := { Config.default with pruneAlternatives := false, bareLiterals := true }
  overrides := []

theorem Compiler.accepts_iff_wellFormed_calls :
    calls.grammar.lookup "" = none ∧ (∃ p, (calls.compile "call").1 = .ok p) ∧
      (∀ name definition, Relation.ReflTransGen calls.Refers "call" name →
        calls.grammar.lookup name = some definition → calls.WellFormed definition) ∧
      ¬ ∃ p, (calls.compile "unused").1 = .ok p := by
  have hnameless : calls.grammar.lookup "" = none := rfl
  have hcompiled : (calls.compile "call").1.isOk = true := by cbv
  have haccepted : ∃ p, (calls.compile "call").1 = .ok p := by
    cases h : (calls.compile "call").1 with
    | error error =>
      rw [h] at hcompiled
      cases hcompiled
    | ok p => exact ⟨p, rfl⟩
  refine ⟨hnameless, haccepted, ((calls.accepts_iff_wellFormed "call" hnameless).1 haccepted).2, fun hunused => ?_⟩
  have hreachable := ((calls.accepts_iff_wellFormed "unused" hnameless).1 hunused).2
  exact (hreachable "unused" _ .refl rfl).layer.2.1

end PegGrammar
