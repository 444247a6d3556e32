import Mathlib.Data.List.Forall2
import PegGrammar.Compile.RuleTable
import PegGrammar.Proofs.Parser.Parts

/-!
# Parsers that are alike

Two parsers that are the same but for what their alternatives carry, where what is carried in the same place is
related. If it is enough that something is carried in the same places, the relation says that the bare parsers are
equal.
-/

namespace PegGrammar

theorem getElem?_of_forall₂ {α β : Type} {S : α → β → Prop} {as : List α} {bs : List β}
    (h : List.Forall₂ S as bs) (n : Nat) :
    as[n]? = none ∧ bs[n]? = none ∨ ∃ a b, as[n]? = some a ∧ bs[n]? = some b ∧ S a b := by
  induction h generalizing n with
  | nil => exact .inl ⟨rfl, rfl⟩
  | @cons a b as bs hab _ ih =>
    cases n with
    | zero => exact .inr ⟨a, b, rfl, rfl, hab⟩
    | succ n => exact ih n

theorem forall₂_imp_of_mem {α β : Type} {S T : α → β → Prop} {as : List α} {bs : List β}
    (h : List.Forall₂ S as bs) (himp : ∀ a ∈ as, ∀ b, S a b → T a b) : List.Forall₂ T as bs := by
  induction h with
  | nil => exact .nil
  | cons hab _ ih =>
    exact .cons (himp _ List.mem_cons_self _ hab) (ih fun a ha => himp a (List.mem_cons_of_mem _ ha))

namespace Parser

/-- Two parsers of which what the alternatives carry is related, and nothing else is different. -/
inductive Alike (B : Option BitSet → Option BitSet → Prop) : Parser → Parser → Prop
  | literal (text : String) : Alike B (.literal text) (.literal text)
  | regex (pattern : Pattern) : Alike B (.regex pattern) (.regex pattern)
  | eof : Alike B .eof .eof
  | indent : Alike B .indent .indent
  | sequence {items items' : List Parser} : List.Forall₂ (Alike B) items items' →
      Alike B (.sequence items) (.sequence items')
  | repeated {body body' : Parser} : Alike B body body' → Alike B (.repeated body) (.repeated body')
  | choice {branches branches' : List (Option BitSet × Parser)} :
      List.Forall₂ B (branches.map Prod.fst) (branches'.map Prod.fst) →
      List.Forall₂ (Alike B) (branches.map Prod.snd) (branches'.map Prod.snd) →
      Alike B (.choice branches) (.choice branches')
  | ahead {body body' : Parser} : Alike B body body' → Alike B (.ahead body) (.ahead body')
  | notAhead {body body' : Parser} : Alike B body body' → Alike B (.notAhead body) (.notAhead body')
  | optional {body body' : Parser} : Alike B body body' → Alike B (.optional body) (.optional body')
  | script (source : String) (handle : Nat) : Alike B (.script source handle) (.script source handle)
  | rule (id : Nat) : Alike B (.rule id) (.rule id)

variable {B B' : Option BitSet → Option BitSet → Prop}

theorem Alike.mono (hB : ∀ first first', B first first' → B' first first') {q q' : Parser} (h : Alike B q q') :
    Alike B' q q' := by
  induction q using induction_on_parts generalizing q' with
  | step q ih =>
    cases h with
    | literal text => exact .literal text
    | regex pattern => exact .regex pattern
    | eof => exact .eof
    | indent => exact .indent
    | sequence hitems => exact .sequence (forall₂_imp_of_mem hitems fun item hitem _ => ih item hitem)
    | choice hfirsts hbranches =>
      exact .choice (hfirsts.imp hB) (forall₂_imp_of_mem hbranches fun branch hbranch _ => ih branch hbranch)
    | repeated hbody => exact .repeated (ih _ List.mem_cons_self hbody)
    | ahead hbody => exact .ahead (ih _ List.mem_cons_self hbody)
    | notAhead hbody => exact .notAhead (ih _ List.mem_cons_self hbody)
    | optional hbody => exact .optional (ih _ List.mem_cons_self hbody)
    | script source handle => exact .script source handle
    | rule id => exact .rule id

theorem Alike.refl_of_carried {q : Parser}
    (h : ∀ branches, Within (.choice branches) q → ∀ branch ∈ branches, B branch.1 branch.1) : Alike B q q := by
  induction q using induction_on_parts with
  | step q ih =>
    have hpart : ∀ part ∈ q.parts, Alike B part part :=
      fun part hpart => ih part hpart fun branches hwithin => h branches (.part hpart hwithin)
    cases q with
    | literal text => exact .literal text
    | regex pattern => exact .regex pattern
    | eof => exact .eof
    | indent => exact .indent
    | sequence items => exact .sequence (List.forall₂_same.2 hpart)
    | choice branches =>
      refine .choice (List.forall₂_same.2 ?_) (List.forall₂_same.2 hpart)
      intro first hfirst
      obtain ⟨branch, hbranch, rfl⟩ := List.mem_map.1 hfirst
      exact h branches .root branch hbranch
    | repeated => exact .repeated (hpart _ List.mem_cons_self)
    | ahead => exact .ahead (hpart _ List.mem_cons_self)
    | notAhead => exact .notAhead (hpart _ List.mem_cons_self)
    | optional => exact .optional (hpart _ List.mem_cons_self)
    | script source handle => exact .script source handle
    | rule id => exact .rule id

theorem Alike.refl (q : Parser) : Alike Eq q q :=
  .refl_of_carried fun _ _ _ _ => rfl

theorem CarriesNothing.alike {q : Parser} (h : q.CarriesNothing) (hnone : B none none) : Alike B q q :=
  .refl_of_carried fun branches hwithin branch hbranch => by rwa [h branches hwithin branch hbranch]

/-- Without what alternatives carry there is no difference. -/
theorem Alike.bare_eq {q q' : Parser} (h : Alike B q q') : q'.bare = q.bare := by
  have map_eq : ∀ {qs qs' : List Parser}, List.Forall₂ (fun q q' => q'.bare = q.bare) qs qs' →
      qs'.map bare = qs.map bare := by
    intro qs qs' hall
    induction hall with
    | nil => rfl
    | cons heq _ ih => rw [List.map_cons, List.map_cons, heq, ih]
  induction q using induction_on_parts generalizing q' with
  | step q ih =>
    cases h with
    | sequence hitems =>
      rw [bare, bare, bareItems_eq_map, bareItems_eq_map,
        map_eq (forall₂_imp_of_mem hitems fun item hitem _ => ih item hitem)]
    | @choice branches branches' _ hbranches =>
      have hmap := map_eq (forall₂_imp_of_mem hbranches fun branch hbranch _ => ih branch hbranch)
      rw [bare, bare, bareBranches_eq_map, bareBranches_eq_map]
      refine congrArg Parser.choice ?_
      have hpair : ∀ bs : List (Option BitSet × Parser),
          bs.map (fun branch => ((none : Option BitSet), branch.2.bare)) =
            ((bs.map Prod.snd).map bare).map (none, ·) := fun bs => by simp
      rw [hpair, hpair, hmap]
    | repeated hbody => exact congrArg Parser.repeated (ih _ List.mem_cons_self hbody)
    | ahead hbody => exact congrArg Parser.ahead (ih _ List.mem_cons_self hbody)
    | notAhead hbody => exact congrArg Parser.notAhead (ih _ List.mem_cons_self hbody)
    | optional hbody => exact congrArg Parser.optional (ih _ List.mem_cons_self hbody)
    | literal | regex | eof | indent | script | rule => rfl

theorem Alike.nesting_eq {q q' : Parser} (h : Alike B q q') : q'.nesting = q.nesting := by
  rw [← nesting_bare, h.bare_eq, nesting_bare]

end Parser

/-- Two rules of one name, with bodies that are alike. -/
structure CompiledRule.Alike (B : Option BitSet → Option BitSet → Prop) (rule rule' : CompiledRule) : Prop where
  name : rule'.name = rule.name
  body : Parser.Alike B rule.body rule'.body

theorem CompiledRule.alike_refl (rules : List CompiledRule) : List.Forall₂ (CompiledRule.Alike Eq) rules rules :=
  List.forall₂_same.2 fun rule _ => ⟨rfl, .refl rule.body⟩

end PegGrammar
