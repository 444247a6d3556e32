import Mathlib.Logic.Relation
import PegGrammar.Compile.Session
import PegGrammar.Proofs.Rule.Shape

/-!
# Which names are met, and when

Names are numbered in the order in which a walk from left to right, into each name where it is first
met, comes across them. The walk is spelled out with the work that is left: what is next is replaced by
its parts, or by the definition of a name that was not met yet. Every name that it meets can be reached,
and a walk that came to its end has met all names that can be.
-/

namespace PegGrammar

namespace Compiler

/-- The definition that a reference to a name leads to: none if the name is replaced. -/
def definition? (c : Compiler) (name : String) : Option Rule :=
  match c.overrides.lookup name with
  | some _ => none
  | none => c.grammar.lookup name

theorem lookup_of_definition? {c : Compiler} {name : String} {definition : Rule}
    (h : c.definition? name = some definition) :
    c.overrides.lookup name = none ∧ c.grammar.lookup name = some definition := by
  rw [definition?] at h
  split at h
  · cases h
  · rename_i hreplaced
    exact ⟨hreplaced, h⟩

theorem definition?_eq_some {c : Compiler} {name : String} {definition : Rule}
    (hreplaced : c.overrides.lookup name = none)
    (hdefined : c.grammar.lookup name = some definition) :
    c.definition? name = some definition := by
  rw [definition?, hreplaced, hdefined]

theorem definition?_eq_none_of_replaced {c : Compiler} {name : String} {q : Parser}
    (h : c.overrides.lookup name = some q) : c.definition? name = none := by
  rw [definition?, h]

theorem definition?_eq_none_of_undefined {c : Compiler} {name : String}
    (h : c.grammar.lookup name = none) : c.definition? name = none := by
  rw [definition?, h]
  split <;> rfl

/-- A definition refers to a named rule, itself or through the rule without a name. -/
inductive Mentions (c : Compiler) : Rule → String → Prop
  | here {name : String} {definition : Rule} : c.definition? name = some definition → name ≠ "" →
      Mentions c (.text name) name
  | inlined {name : String} {definition : Rule} : c.definition? "" = some definition →
      Mentions c definition name → Mentions c (.text "") name
  | part {r part : Rule} {name : String} : part ∈ r.shape.parts → Mentions c part name →
      Mentions c r name

/-- The definition of one name refers to another. -/
def Refers (c : Compiler) (name other : String) : Prop :=
  ∃ definition, c.grammar.lookup name = some definition ∧ c.Mentions definition other

/-- The walk through definitions from left to right, depth first: it begins with the names that were met
and the definitions that are left to walk through, and ends with all names that were met, in order. -/
inductive Meets (c : Compiler) : List String → List Rule → List String → Prop
  | done {seen : List String} : Meets c seen [] seen
  | known {name : String} {seen out : List String} {work : List Rule} : name ∈ seen →
      Meets c seen work out → Meets c seen (.text name :: work) out
  | undefined {name : String} {seen out : List String} {work : List Rule} :
      c.definition? name = none → Meets c seen work out → Meets c seen (.text name :: work) out
  | entered {name : String} {definition : Rule} {seen out : List String} {work : List Rule} :
      c.definition? name = some definition → name ≠ "" → name ∉ seen →
      Meets c (seen ++ [name]) (definition :: work) out → Meets c seen (.text name :: work) out
  | inlined {definition : Rule} {seen out : List String} {work : List Rule} :
      c.definition? "" = some definition → Meets c seen (definition :: work) out →
      Meets c seen (.text "" :: work) out
  | parts {r : Rule} {seen out : List String} {work : List Rule} :
      (∀ name, r.shape ≠ .reference name) → Meets c seen (r.shape.parts ++ work) out →
      Meets c seen (r :: work) out

variable {c : Compiler}

namespace Meets

theorem append {seen mid out : List String} {work more : List Rule} (h : c.Meets seen work mid)
    (hmore : c.Meets mid more out) : c.Meets seen (work ++ more) out := by
  induction h with
  | done => exact hmore
  | known hseen _ ih => exact .known hseen (ih hmore)
  | undefined hnone _ ih => exact .undefined hnone (ih hmore)
  | entered hsome hne hfresh _ ih => exact .entered hsome hne hfresh (ih hmore)
  | inlined hsome _ ih => exact .inlined hsome (ih hmore)
  | parts hshape _ ih =>
    have hrest := ih hmore
    rw [List.append_assoc] at hrest
    exact .parts hshape hrest

theorem isPrefix {seen out : List String} {work : List Rule} (h : c.Meets seen work out) :
    seen <+: out := by
  induction h with
  | done => exact List.prefix_refl _
  | known _ _ ih | undefined _ _ ih | inlined _ _ ih | parts _ _ ih => exact ih
  | entered _ _ _ _ ih => exact (List.prefix_append _ _).trans ih

theorem nodup {seen out : List String} {work : List Rule} (h : c.Meets seen work out)
    (hseen : seen.Nodup) : out.Nodup := by
  induction h with
  | done => exact hseen
  | known _ _ ih | undefined _ _ ih | inlined _ _ ih | parts _ _ ih => exact ih hseen
  | @entered name _ seen _ _ _ _ hfresh _ ih =>
    have happend : (seen ++ [name]).Nodup := by
      rw [List.nodup_append]
      refine ⟨hseen, List.pairwise_singleton _ _, fun a ha b hb => ?_⟩
      rw [List.mem_singleton] at hb
      exact fun heq => hfresh (hb ▸ heq ▸ ha)
    exact ih happend

theorem empty_not_mem {seen out : List String} {work : List Rule} (h : c.Meets seen work out)
    (hseen : "" ∉ seen) : "" ∉ out := by
  induction h with
  | done => exact hseen
  | known _ _ ih | undefined _ _ ih | inlined _ _ ih | parts _ _ ih => exact ih hseen
  | entered _ hne _ _ ih =>
    refine ih fun hmem => ?_
    rcases List.mem_append.1 hmem with hmem | hmem
    · exact hseen hmem
    · exact hne (List.mem_singleton.1 hmem).symm

/-- A name that was met was met before, or can be reached from what was walked through. -/
theorem sound {seen out : List String} {work : List Rule} (h : c.Meets seen work out) :
    ∀ name ∈ out, name ∈ seen ∨
      ∃ r ∈ work, ∃ first, c.Mentions r first ∧ Relation.ReflTransGen c.Refers first name := by
  induction h with
  | done => exact fun name hname => .inl hname
  | known _ _ ih | undefined _ _ ih =>
    intro name hname
    rcases ih name hname with hseen | ⟨r, hr, hreach⟩
    · exact .inl hseen
    · exact .inr ⟨r, List.mem_cons_of_mem _ hr, hreach⟩
  | @entered entry definition seen out work hsome hne hfresh _ ih =>
    have hentry : c.Mentions (.text entry) entry := .here hsome hne
    intro name hname
    rcases ih name hname with hseen | ⟨r, hr, first, hfirst, hreach⟩
    · rcases List.mem_append.1 hseen with hseen | hlast
      · exact .inl hseen
      · rw [List.mem_singleton.1 hlast]
        exact .inr ⟨_, List.mem_cons_self, entry, hentry, .refl⟩
    · rcases List.mem_cons.1 hr with rfl | hr
      · have hrefers : c.Refers entry first := ⟨r, (lookup_of_definition? hsome).2, hfirst⟩
        exact .inr ⟨_, List.mem_cons_self, entry, hentry, .head hrefers hreach⟩
      · exact .inr ⟨r, List.mem_cons_of_mem _ hr, first, hfirst, hreach⟩
  | inlined hsome _ ih =>
    intro name hname
    rcases ih name hname with hseen | ⟨r, hr, first, hfirst, hreach⟩
    · exact .inl hseen
    · rcases List.mem_cons.1 hr with rfl | hr
      · exact .inr ⟨_, List.mem_cons_self, first, .inlined hsome hfirst, hreach⟩
      · exact .inr ⟨r, List.mem_cons_of_mem _ hr, first, hfirst, hreach⟩
  | parts _ _ ih =>
    intro name hname
    rcases ih name hname with hseen | ⟨r, hr, first, hfirst, hreach⟩
    · exact .inl hseen
    · rcases List.mem_append.1 hr with hr | hr
      · exact .inr ⟨_, List.mem_cons_self, first, .part hr hfirst, hreach⟩
      · exact .inr ⟨r, List.mem_cons_of_mem _ hr, first, hfirst, hreach⟩

/-- A walk that came to its end has met all that is mentioned: in what it walked through, and in the
definitions of the names that it met. -/
theorem complete {seen out : List String} {work : List Rule} (h : c.Meets seen work out)
    (hseen : "" ∉ seen) :
    (∀ r ∈ work, ∀ name, c.Mentions r name → name ∈ out) ∧
      ∀ name ∈ out, name ∉ seen → ∀ other, c.Refers name other → other ∈ out := by
  induction h with
  | done =>
    refine ⟨fun r hr => ?_, fun name hname hnew => (hnew hname).elim⟩
    cases hr
  | @known entry seen out work hknown hrest ih =>
    refine ⟨fun r hr name hname => ?_, (ih hseen).2⟩
    rcases List.mem_cons.1 hr with rfl | hr
    · cases hname with
      | here => exact hrest.isPrefix.subset hknown
      | inlined => exact (hseen hknown).elim
      | part hpart => cases hpart
    · exact (ih hseen).1 r hr name hname
  | @undefined entry seen out work hnone _ ih =>
    refine ⟨fun r hr name hname => ?_, (ih hseen).2⟩
    rcases List.mem_cons.1 hr with rfl | hr
    · cases hname with
      | here hsome => cases hnone.symm.trans hsome
      | inlined hsome => cases hnone.symm.trans hsome
      | part hpart => cases hpart
    · exact (ih hseen).1 r hr name hname
  | @entered entry definition seen out work hsome hne hfresh hrest ih =>
    have hentered : "" ∉ seen ++ [entry] := by
      intro hmem
      rcases List.mem_append.1 hmem with hmem | hmem
      · exact hseen hmem
      · exact hne (List.mem_singleton.1 hmem).symm
    obtain ⟨hwork, hnames⟩ := ih hentered
    refine ⟨fun r hr name hname => ?_, fun name hname hnew other hother => ?_⟩
    · rcases List.mem_cons.1 hr with rfl | hr
      · cases hname with
        | here => exact hrest.isPrefix.subset (List.mem_append_right _ List.mem_cons_self)
        | inlined => exact (hne rfl).elim
        | part hpart => cases hpart
      · exact hwork r (List.mem_cons_of_mem _ hr) name hname
    · by_cases hentry : name = entry
      · obtain ⟨found, hfound, hmention⟩ := hother
        rw [hentry, (lookup_of_definition? hsome).2] at hfound
        cases hfound
        exact hwork _ List.mem_cons_self other hmention
      · refine hnames name hname (fun hmem => ?_) other hother
        rcases List.mem_append.1 hmem with hmem | hmem
        · exact hnew hmem
        · exact hentry (List.mem_singleton.1 hmem)
  | @inlined definition seen out work hsome _ ih =>
    refine ⟨fun r hr name hname => ?_, (ih hseen).2⟩
    rcases List.mem_cons.1 hr with rfl | hr
    · cases hname with
      | here _ hne => exact (hne rfl).elim
      | inlined hagain hname =>
        cases hsome.symm.trans hagain
        exact (ih hseen).1 _ List.mem_cons_self name hname
      | part hpart => cases hpart
    · exact (ih hseen).1 r (List.mem_cons_of_mem _ hr) name hname
  | @parts r seen out work hshape _ ih =>
    refine ⟨fun r' hr name hname => ?_, (ih hseen).2⟩
    rcases List.mem_cons.1 hr with rfl | hr
    · cases hname with
      | here => exact (hshape _ rfl).elim
      | inlined => exact (hshape _ rfl).elim
      | part hpart hname => exact (ih hseen).1 _ (List.mem_append_left _ hpart) name hname
    · exact (ih hseen).1 r' (List.mem_append_right _ hr) name hname

/-- A walk from a start meets exactly the names that can be reached. -/
theorem mem_iff {start : String} {definition : Rule} {names : List String}
    (hstart : c.grammar.lookup start = some definition) (hne : start ≠ "")
    (h : c.Meets [start] [definition] names) (name : String) :
    name ∈ names ↔ Relation.ReflTransGen c.Refers start name := by
  have hseen : "" ∉ [start] := fun hmem => hne (List.mem_singleton.1 hmem).symm
  obtain ⟨hwork, hnames⟩ := h.complete hseen
  constructor
  · intro hname
    rcases h.sound name hname with hmem | ⟨r, hr, first, hfirst, hreach⟩
    · rw [List.mem_singleton.1 hmem]
    · rw [List.mem_singleton.1 hr] at hfirst
      exact .head ⟨definition, hstart, hfirst⟩ hreach
  · intro hreach
    induction hreach with
    | refl => exact h.isPrefix.subset List.mem_cons_self
    | @tail mid other _ hrefers hmid =>
      by_cases hmidStart : mid = start
      · obtain ⟨found, hfound, hmention⟩ := hrefers
        rw [hmidStart, hstart] at hfound
        cases hfound
        exact hwork _ List.mem_cons_self other hmention
      · exact hnames mid hmid (fun hmem => hmidStart (List.mem_singleton.1 hmem)) other hrefers

end Meets

end Compiler

end PegGrammar
