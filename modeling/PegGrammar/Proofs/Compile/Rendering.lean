import PegGrammar.Proofs.Compile.Result
import PegGrammar.Proofs.Compile.Traversal
import PegGrammar.Proofs.Parser.Parts

/-!
# Definitions and their parsers

What it means that a parser is made from a definition node by node. A name that is replaced stands for
what replaces it; one that is defined, for a call of its number in a list of names; the rule without a name,
for its own parser. Which literals an alternative may carry is left open, because it depends on more than
the definition.

Names that are added at the end do not change numbers, so what was made stays right as the list grows.
-/

namespace PegGrammar.Compiler

/-- A parser is the one of a definition: `names` gives the numbers of the rules, and `lead` says what an
alternative may carry. -/
inductive Renders (c : Compiler) (names : List String) (lead : Rule → Option BitSet → Prop) :
    Rule → Parser → Prop
  | replaced {name : String} {q : Parser} : c.overrides.lookup name = some q →
      Renders c names lead (.text name) q
  | called {name : String} {definition : Rule} {id : Nat} : c.definition? name = some definition →
      name ≠ "" → names[id]? = some name → Renders c names lead (.text name) (.rule id)
  | inlined {definition : Rule} {q : Parser} : c.definition? "" = some definition →
      Renders c names lead definition q → Renders c names lead (.text "") q
  | undefined {name : String} {q : Parser} : c.overrides.lookup name = none →
      c.grammar.lookup name = none → c.undefined? name = some q → Renders c names lead (.text name) q
  | sequence {r : Rule} {items : List Rule} {qs : List Parser} : r.shape = .sequence items →
      items.length = qs.length → (∀ pair ∈ items.zip qs, Renders c names lead pair.1 pair.2) →
      Renders c names lead r (.sequence qs)
  | choice {r : Rule} {rules : List Rule} {branches : List (Option BitSet × Parser)} :
      r.shape = .choice rules → rules.length = branches.length →
      (∀ pair ∈ rules.zip branches, lead pair.1 pair.2.1) →
      (∀ pair ∈ rules.zip branches, Renders c names lead pair.1 pair.2.2) →
      Renders c names lead r (.choice branches)
  | repeated {r part : Rule} {q : Parser} : r.shape = .repeated part →
      Renders c names lead part q → Renders c names lead r (.repeated q)
  | ahead {r part : Rule} {q : Parser} : r.shape = .ahead part →
      Renders c names lead part q → Renders c names lead r (.ahead q)
  | notAhead {r part : Rule} {q : Parser} : r.shape = .notAhead part →
      Renders c names lead part q → Renders c names lead r (.notAhead q)
  | optional {r part : Rule} {q : Parser} : r.shape = .optional part →
      Renders c names lead part q → Renders c names lead r (.optional q)
  | literal {r : Rule} {text : String} : r.shape = .literal text → text ≠ "" →
      Renders c names lead r (.literal text)
  | regex {r : Rule} {source : String} {pattern : Pattern} : r.shape = .regex source →
      Pattern.ofString? source = some pattern → Renders c names lead r (.regex pattern)
  | eof {r : Rule} : r.shape = .eof → Renders c names lead r .eof
  | indent {r : Rule} : r.shape = .indent → Renders c names lead r .indent
  | script {r : Rule} {source : String} {handle : Nat} : r.shape = .script source →
      c.scripts.compile source = .ok handle → Renders c names lead r (.script source handle)
  | annotated {r value : Rule} {q : Parser} : r.shape = .annotated value →
      Renders c names lead value q → Renders c names lead r q

variable {c : Compiler} {names : List String} {lead : Rule → Option BitSet → Prop}

theorem Renders.mono {r : Rule} {q : Parser} (h : c.Renders names lead r q) {more : List String}
    {lead' : Rule → Option BitSet → Prop} (hnames : names <+: more)
    (hlead : ∀ r first, lead r first → lead' r first) : c.Renders more lead' r q := by
  induction h with
  | replaced hlookup => exact .replaced hlookup
  | called hsome hne hid =>
    obtain ⟨added, rfl⟩ := hnames
    have hlt := (List.getElem?_eq_some_iff.1 hid).1
    exact .called hsome hne ((List.getElem?_append_left hlt).trans hid)
  | inlined hsome _ ih => exact .inlined hsome ih
  | undefined hreplaced hnone hleaf => exact .undefined hreplaced hnone hleaf
  | sequence hshape hlength _ ih => exact .sequence hshape hlength ih
  | choice hshape hlength hfirst _ ih =>
    exact .choice hshape hlength (fun pair hpair => hlead _ _ (hfirst pair hpair)) ih
  | repeated hshape _ ih => exact .repeated hshape ih
  | ahead hshape _ ih => exact .ahead hshape ih
  | notAhead hshape _ ih => exact .notAhead hshape ih
  | optional hshape _ ih => exact .optional hshape ih
  | literal hshape hne => exact .literal hshape hne
  | regex hshape hpattern => exact .regex hshape hpattern
  | eof hshape => exact .eof hshape
  | indent hshape => exact .indent hshape
  | script hshape hhandle => exact .script hshape hhandle
  | annotated hshape _ ih => exact .annotated hshape ih

/-- Without what its alternatives carry, a parser is still the one of its definition. -/
theorem Renders.bare {r : Rule} {q : Parser} (h : c.Renders names lead r q)
    (hcarry : ∀ entry ∈ c.overrides, entry.2.CarriesNothing) :
    c.Renders names (fun _ _ => True) r q.bare := by
  induction h with
  | replaced hlookup =>
    rw [Parser.bare_eq_self (hcarry _ (mem_of_lookup hlookup))]
    exact .replaced hlookup
  | called hsome hne hid => exact .called hsome hne hid
  | inlined hsome _ ih => exact .inlined hsome ih
  | undefined hreplaced hnone hleaf =>
    rcases leaf_of_undefined? hleaf with rfl | rfl | rfl
    all_goals exact .undefined hreplaced hnone hleaf
  | @sequence r items qs hshape hlength _ ih =>
    rw [Parser.bare, Parser.bareItems_eq_map]
    refine .sequence hshape (hlength.trans (List.length_map _).symm) fun pair hpair => ?_
    rw [List.zip_map_right] at hpair
    obtain ⟨pair, hmem, rfl⟩ := List.mem_map.1 hpair
    exact ih pair hmem
  | @choice r rules branches hshape hlength _ _ ih =>
    rw [Parser.bare, Parser.bareBranches_eq_map]
    refine .choice hshape (hlength.trans (List.length_map _).symm) (fun _ _ => trivial)
      fun pair hpair => ?_
    rw [List.zip_map_right] at hpair
    obtain ⟨pair, hmem, rfl⟩ := List.mem_map.1 hpair
    exact ih pair hmem
  | repeated hshape _ ih => exact .repeated hshape ih
  | ahead hshape _ ih => exact .ahead hshape ih
  | notAhead hshape _ ih => exact .notAhead hshape ih
  | optional hshape _ ih => exact .optional hshape ih
  | literal hshape hne => exact .literal hshape hne
  | regex hshape hpattern => exact .regex hshape hpattern
  | eof hshape => exact .eof hshape
  | indent hshape => exact .indent hshape
  | script hshape hhandle => exact .script hshape hhandle
  | annotated hshape _ ih => exact .annotated hshape ih

theorem exists_mem_zip {α β : Type} {as : List α} {bs : List β}
    (hlength : as.length = bs.length) {b : β} (hb : b ∈ bs) : ∃ a, (a, b) ∈ as.zip bs := by
  obtain ⟨i, hi, rfl⟩ := List.mem_iff_getElem.1 hb
  have hzip : i < (as.zip bs).length := by
    rw [List.length_zip]
    omega
  refine ⟨as[i], List.mem_iff_getElem.2 ⟨i, hzip, ?_⟩⟩
  rw [List.getElem_zip]

/-- A parser calls rules of the list of names only, if what replaces names calls none. -/
theorem Renders.lt_of_calls {r : Rule} {q : Parser} (h : c.Renders names lead r q)
    (hreplaced : ∀ entry ∈ c.overrides, entry.2.CallsNothing) {id : Nat}
    (hcall : (Parser.rule id).Within q) : id < names.length := by
  induction h with
  | replaced hlookup =>
    exact (hreplaced _ (mem_of_lookup hlookup) id hcall).elim
  | called _ _ hid =>
    cases hcall with
    | root => exact (List.getElem?_eq_some_iff.1 hid).1
    | part hpart => cases hpart
  | inlined _ _ ih | annotated _ _ ih => exact ih hcall
  | undefined _ _ hleaf =>
    rcases leaf_of_undefined? hleaf with rfl | rfl | rfl
    all_goals
      cases hcall with
      | part hpart => cases hpart
  | @sequence r items qs _ hlength _ ih =>
    cases hcall with
    | @part _ part hpart hwithin =>
      obtain ⟨item, hitem⟩ := exists_mem_zip hlength hpart
      exact ih (item, part) hitem hwithin
  | @choice r rules branches _ hlength _ _ ih =>
    cases hcall with
    | part hpart hwithin =>
      obtain ⟨branch, hbranch, rfl⟩ := List.mem_map.1 hpart
      obtain ⟨rule, hrule⟩ := exists_mem_zip hlength hbranch
      exact ih (rule, branch) hrule hwithin
  | repeated _ _ ih | ahead _ _ ih | notAhead _ _ ih | optional _ _ ih =>
    cases hcall with
    | part hpart hwithin =>
      rw [List.mem_singleton.1 hpart] at hwithin
      exact ih hwithin
  | literal | regex | eof | indent | script =>
    cases hcall with
    | part hpart => cases hpart

end PegGrammar.Compiler
