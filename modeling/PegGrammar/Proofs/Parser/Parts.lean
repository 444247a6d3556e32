import PegGrammar.Parser.Basic

/-!
# What a parser is made of

A parser is a tree. What is asked of its nodes is asked through `Within`, so that there is one induction
for all questions: which rules it calls, which literals its alternatives carry. Without these literals
a parser is bare; that changes neither its shape nor its nesting.
-/

namespace PegGrammar.Parser

/-- The parsers that a parser is made of, from left to right, without those of the rules it calls. -/
def parts : Parser → List Parser
  | .sequence items => items
  | .choice branches => branches.map Prod.snd
  | .repeated body | .ahead body | .notAhead body | .optional body => [body]
  | .literal _ | .regex _ | .eof | .indent | .script _ _ | .rule _ => []

theorem sizeOf_lt_of_mem_parts {q part : Parser} (h : part ∈ q.parts) : sizeOf part < sizeOf q := by
  cases q with
  | sequence items =>
    have : sizeOf part < sizeOf items := List.sizeOf_lt_of_mem h
    simp only [sequence.sizeOf_spec]
    omega
  | choice branches =>
    obtain ⟨⟨first, branch⟩, hbranch, rfl⟩ := List.mem_map.1 h
    have := List.sizeOf_lt_of_mem hbranch
    simp only [choice.sizeOf_spec]
    simp only [Prod.mk.sizeOf_spec] at this
    omega
  | repeated body | ahead body | notAhead body | optional body =>
    rw [List.mem_singleton.1 h]
    simp
  | literal | regex | eof | indent | script | rule => cases h

/-- What holds of a parser whenever it holds of its parts holds of every parser. -/
theorem induction_on_parts {P : Parser → Prop} (step : ∀ q, (∀ part ∈ q.parts, P part) → P q)
    (q : Parser) : P q :=
  step q (fun part hpart =>
    have := sizeOf_lt_of_mem_parts hpart
    induction_on_parts step part)
termination_by sizeOf q

/-- A parser is a node of another. -/
inductive Within (node : Parser) : Parser → Prop
  | root : Within node node
  | part {whole part : Parser} : part ∈ whole.parts → Within node part → Within node whole

theorem Within.trans {q part whole : Parser} (hq : q.Within part) (hpart : part.Within whole) :
    q.Within whole := by
  induction hpart with
  | root => exact hq
  | part hmem _ ih => exact .part hmem ih

mutual

/-- A parser and all parsers that it is made of. -/
def nodes : Parser → List Parser
  | .sequence items => .sequence items :: nodesOfItems items
  | .choice branches => .choice branches :: nodesOfBranches branches
  | .repeated body => .repeated body :: body.nodes
  | .ahead body => .ahead body :: body.nodes
  | .notAhead body => .notAhead body :: body.nodes
  | .optional body => .optional body :: body.nodes
  | .literal text => [.literal text]
  | .regex pattern => [.regex pattern]
  | .eof => [.eof]
  | .indent => [.indent]
  | .script source handle => [.script source handle]
  | .rule id => [.rule id]

/-- Items and all parsers that they are made of. -/
def nodesOfItems : List Parser → List Parser
  | [] => []
  | item :: items => item.nodes ++ nodesOfItems items

/-- Branches and all parsers that they are made of. -/
def nodesOfBranches : List (Option BitSet × Parser) → List Parser
  | [] => []
  | (_, branch) :: branches => branch.nodes ++ nodesOfBranches branches

end

private theorem mem_nodesOfItems {q item : Parser} {items : List Parser} (hitem : item ∈ items)
    (hq : q ∈ item.nodes) : q ∈ nodesOfItems items := by
  induction items with
  | nil => cases hitem
  | cons first items ih =>
    rcases List.mem_cons.1 hitem with rfl | hitem
    · exact List.mem_append_left _ hq
    · exact List.mem_append_right _ (ih hitem)

private theorem mem_nodesOfBranches {q branch : Parser} {branches : List (Option BitSet × Parser)}
    (hbranch : branch ∈ branches.map Prod.snd) (hq : q ∈ branch.nodes) :
    q ∈ nodesOfBranches branches := by
  induction branches with
  | nil => cases hbranch
  | cons first branches ih =>
    rcases List.mem_cons.1 hbranch with rfl | hbranch
    · exact List.mem_append_left _ hq
    · exact List.mem_append_right _ (ih hbranch)

theorem Within.mem_nodes {q whole : Parser} (h : q.Within whole) : q ∈ whole.nodes := by
  induction h with
  | root => cases q <;> simp [nodes]
  | @part whole part hpart _ ih =>
    cases whole with
    | sequence items => exact List.mem_cons_of_mem _ (mem_nodesOfItems hpart ih)
    | choice branches => exact List.mem_cons_of_mem _ (mem_nodesOfBranches hpart ih)
    | repeated body | ahead body | notAhead body | optional body =>
      rw [List.mem_singleton.1 hpart] at ih
      exact List.mem_cons_of_mem _ ih
    | literal | regex | eof | indent | script | rule => cases hpart

/-- No rule is called from anywhere in the tree. -/
def CallsNothing (q : Parser) : Prop := ∀ id, ¬ Within (.rule id) q

/-- No alternative in the tree carries literals. -/
def CarriesNothing (q : Parser) : Prop :=
  ∀ branches, Within (.choice branches) q → ∀ branch ∈ branches, branch.1 = none

theorem CarriesNothing.part {q part : Parser} (h : q.CarriesNothing) (hpart : part ∈ q.parts) :
    part.CarriesNothing :=
  fun branches hwithin => h branches (.part hpart hwithin)

/-! ### Bare parsers -/

mutual

/-- The parser without the literals of its alternatives. -/
def bare : Parser → Parser
  | .sequence items => .sequence (bareItems items)
  | .choice branches => .choice (bareBranches branches)
  | .repeated body => .repeated body.bare
  | .ahead body => .ahead body.bare
  | .notAhead body => .notAhead body.bare
  | .optional body => .optional body.bare
  | .literal text => .literal text
  | .regex pattern => .regex pattern
  | .eof => .eof
  | .indent => .indent
  | .script source handle => .script source handle
  | .rule id => .rule id

/-- Items without the literals of their alternatives. -/
def bareItems : List Parser → List Parser
  | [] => []
  | item :: items => item.bare :: bareItems items

/-- Branches without literals, also inside. -/
def bareBranches : List (Option BitSet × Parser) → List (Option BitSet × Parser)
  | [] => []
  | (_, branch) :: branches => (none, branch.bare) :: bareBranches branches

end

theorem bareItems_eq_map (items : List Parser) : bareItems items = items.map bare := by
  induction items with
  | nil => rfl
  | cons item items ih => exact congrArg (item.bare :: ·) ih

theorem bareBranches_eq_map (branches : List (Option BitSet × Parser)) :
    bareBranches branches = branches.map (fun branch => (none, branch.2.bare)) := by
  induction branches with
  | nil => rfl
  | cons branch branches ih => exact congrArg ((none, branch.2.bare) :: ·) ih

mutual

@[simp] theorem nesting_bare : (q : Parser) → q.bare.nesting = q.nesting
  | .sequence items => congrArg (1 + ·) (nesting_bareItems items)
  | .choice branches => congrArg (1 + ·) (nesting_bareBranches branches)
  | .repeated body | .ahead body | .notAhead body | .optional body =>
    congrArg (1 + ·) (nesting_bare body)
  | .literal _ | .regex _ | .eof | .indent | .script _ _ | .rule _ => rfl

theorem nesting_bareItems : (items : List Parser) →
    nestingOfItems (bareItems items) = nestingOfItems items
  | [] => rfl
  | item :: items => by
    rw [bareItems, nestingOfItems, nestingOfItems, nesting_bare item, nesting_bareItems items]

theorem nesting_bareBranches : (branches : List (Option BitSet × Parser)) →
    nestingOfBranches (bareBranches branches) = nestingOfBranches branches
  | [] => rfl
  | (_, branch) :: branches => by
    rw [bareBranches, nestingOfBranches, nestingOfBranches, nesting_bare branch,
      nesting_bareBranches branches]

end

private theorem bareItems_eq_self {items : List Parser} (h : ∀ item ∈ items, item.bare = item) :
    bareItems items = items := by
  induction items with
  | nil => rfl
  | cons item items ih =>
    rw [bareItems, h item List.mem_cons_self,
      ih (fun item hitem => h item (List.mem_cons_of_mem _ hitem))]

private theorem bareBranches_eq_self {branches : List (Option BitSet × Parser)}
    (h : ∀ branch ∈ branches, branch.1 = none ∧ branch.2.bare = branch.2) :
    bareBranches branches = branches := by
  induction branches with
  | nil => rfl
  | cons branch branches ih =>
    obtain ⟨first, q⟩ := branch
    obtain ⟨hfirst, hq⟩ := h (first, q) List.mem_cons_self
    dsimp only at hfirst hq
    rw [bareBranches, hq, hfirst, ih (fun branch hb => h branch (List.mem_cons_of_mem _ hb))]

theorem bare_eq_self {q : Parser} (h : q.CarriesNothing) : q.bare = q := by
  induction q using induction_on_parts with
  | step q ih =>
    have hparts : ∀ part ∈ q.parts, part.bare = part := fun part hpart => ih part hpart (h.part hpart)
    cases q with
    | sequence items => exact congrArg sequence (bareItems_eq_self hparts)
    | choice branches =>
      refine congrArg choice (bareBranches_eq_self fun branch hbranch => ?_)
      exact ⟨h branches .root branch hbranch, hparts branch.2 (List.mem_map_of_mem hbranch)⟩
    | repeated body => exact congrArg repeated (hparts body List.mem_cons_self)
    | ahead body => exact congrArg ahead (hparts body List.mem_cons_self)
    | notAhead body => exact congrArg notAhead (hparts body List.mem_cons_self)
    | optional body => exact congrArg optional (hparts body List.mem_cons_self)
    | literal | regex | eof | indent | script | rule => rfl

end PegGrammar.Parser
