import PegGrammar.Proofs.Compile.Result

/-!
# Going down into definitions

Compiling a definition does something about each of its nodes and puts these steps one behind the other. What is
kept by putting steps one behind the other holds of compiling a definition, therefore, if it holds of what is done at
the nodes: the note and the checks that come first, the analysis of an alternative, and the node itself if it has
no parts. It is stated for pairs of steps, since compilers of rules are compared; a property of one is a relation of
it to itself.
-/

namespace PegGrammar

/-- A node of a definition: itself, or a node of one of its parts. -/
inductive Rule.Node : Rule → Rule → Prop
  | root {r : Rule} : Node r r
  | part {r part node : Rule} : part ∈ r.shape.parts → Node part node → Node r node

namespace Compiling

/-- A relation between steps that is kept by putting them one behind the other. -/
structure Congruence (R : ∀ {α : Type}, Compiling α → Compiling α → Prop) : Prop where
  pure {α : Type} (a : α) : R (pure a) (pure a)
  bind {α β : Type} {m m' : Compiling α} {k k' : α → Compiling β} :
    R m m' → (∀ a, R (k a) (k' a)) → R (m >>= k) (m' >>= k')

theorem passive_leaf {c : Compiler} {shape : Rule.Shape} (hparts : shape.parts = [])
    (hreference : ∀ name, shape ≠ .reference name) (ofRule ofRule' : Rule → String → Compiling Parser) :
    Passive (layer c ofRule shape) ∧ layer c ofRule' shape = layer c ofRule shape := by
  cases shape with
  | reference name => exact (hreference name rfl).elim
  | sequence items =>
    cases (show items = [] from hparts)
    dsimp only [layer]
    rw [bodies_nil, bodies_nil, pure_bind]
    exact ⟨passive_pure _, rfl⟩
  | choice rules =>
    cases (show rules = [] from hparts)
    dsimp only [layer]
    rw [branches_nil, branches_nil, pure_bind]
    exact ⟨passive_pure _, rfl⟩
  | literal text => exact ⟨passive_literal text, rfl⟩
  | regex source =>
    refine ⟨?_, rfl⟩
    dsimp only [layer]
    split
    · exact passive_pure _
    · exact passive_fail _
  | eof => exact ⟨passive_pure _, rfl⟩
  | indent => exact ⟨passive_pure _, rfl⟩
  | script source =>
    refine ⟨?_, rfl⟩
    dsimp only [layer]
    split
    · exact passive_pure _
    · exact passive_fail _
  | wrong error => exact ⟨passive_fail _, rfl⟩
  | _ => cases hparts

namespace Congruence

variable {R : ∀ {α : Type}, Compiling α → Compiling α → Prop} {c : Compiler}
  {ofRule ofRule' : Rule → String → Compiling Parser}

theorem bodies (h : Congruence R) {rules : List Rule}
    (hrules : ∀ r ∈ rules, R (body c ofRule r) (body c ofRule' r)) :
    R (bodies c ofRule rules) (bodies c ofRule' rules) := by
  induction rules with
  | nil =>
    rw [bodies_nil, bodies_nil]
    exact h.pure []
  | cons r rules ih =>
    rw [bodies_cons, bodies_cons]
    have hrest := ih (fun r hr => hrules r (List.mem_cons_of_mem _ hr))
    exact h.bind (hrules r List.mem_cons_self) fun _ => h.bind hrest fun _ => h.pure _

theorem branches (h : Congruence R) (hleads : ∀ r, R (branchLiterals c r) (branchLiterals c r))
    {rules : List Rule} (hrules : ∀ r ∈ rules, R (body c ofRule r) (body c ofRule' r)) :
    R (branches c ofRule rules) (branches c ofRule' rules) := by
  induction rules with
  | nil =>
    rw [branches_nil, branches_nil]
    exact h.pure []
  | cons r rules ih =>
    rw [branches_cons, branches_cons]
    have hrest := ih (fun r hr => hrules r (List.mem_cons_of_mem _ hr))
    exact h.bind (hrules r List.mem_cons_self) fun _ => h.bind (hleads r) fun _ => h.bind hrest fun _ => h.pure _

/-- What is related at all nodes of a definition is related for the definition. -/
theorem body (h : Congruence R) (ofRule ofRule' : Rule → String → Compiling Parser)
    (hleads : ∀ r, R (branchLiterals c r) (branchLiterals c r)) (r : Rule)
    (hintroduction : ∀ node, r.Node node → R (introduction node) (introduction node))
    (hleaf : ∀ node, r.Node node → node.shape.parts = [] →
      R (layer c ofRule node.shape) (layer c ofRule' node.shape)) :
    R (body c ofRule r) (body c ofRule' r) := by
  induction r using Rule.induction_on_parts with
  | step r ih =>
    have hparts : ∀ part ∈ r.shape.parts, R (Compiling.body c ofRule part) (Compiling.body c ofRule' part) :=
      fun part hpart => ih part hpart (fun node hnode => hintroduction node (.part hpart hnode))
        (fun node hnode => hleaf node (.part hpart hnode))
    have unary : ∀ {part} (wrap : Parser → Parser), r.shape.parts = [part] →
        R (Compiling.body c ofRule part >>= fun q => Pure.pure (wrap q))
          (Compiling.body c ofRule' part >>= fun q => Pure.pure (wrap q)) :=
      fun wrap heq => h.bind (hparts _ (heq ▸ List.mem_singleton_self _)) fun _ => h.pure _
    have hleaf := hleaf r .root
    rw [body_eq, body_eq]
    refine h.bind (hintroduction r .root) fun _ => ?_
    cases hshape : r.shape with
    | sequence items =>
      have heq : r.shape.parts = items := congrArg Rule.Shape.parts hshape
      exact h.bind (h.bodies (heq ▸ hparts)) fun _ => h.pure _
    | choice rules =>
      have heq : r.shape.parts = rules := congrArg Rule.Shape.parts hshape
      exact h.bind (h.branches hleads (heq ▸ hparts)) fun _ => h.pure _
    | repeated part => exact unary .repeated (congrArg Rule.Shape.parts hshape)
    | ahead part => exact unary .ahead (congrArg Rule.Shape.parts hshape)
    | notAhead part => exact unary .notAhead (congrArg Rule.Shape.parts hshape)
    | optional part => exact unary .optional (congrArg Rule.Shape.parts hshape)
    | annotated value =>
      have heq : r.shape.parts = [value] := congrArg Rule.Shape.parts hshape
      exact hparts value (heq ▸ List.mem_singleton_self _)
    | _ =>
      rw [hshape] at hleaf
      exact hleaf rfl

end Congruence

end Compiling

end PegGrammar
