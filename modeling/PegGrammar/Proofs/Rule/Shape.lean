import PegGrammar.Compile.Error
import PegGrammar.Lead.Analysis

/-!
# What a definition is made of

The notation of a definition is resolved here once: which combinator a node applies, and to which
parts. A list and `$sequence` have the same shape, and an annotation has the shape of what it annotates.
Compiling and the analysis of first sets both go by the shape, and both go on with its parts only, so
whatever is proved of them is proved by induction on parts.
-/

namespace PegGrammar

theorem mem_of_lookup {κ α : Type} [BEq κ] [LawfulBEq κ] {key : κ} {value : α}
    {entries : List (κ × α)} (h : entries.lookup key = some value) : (key, value) ∈ entries := by
  obtain ⟨before, after, rfl, -⟩ := List.lookup_eq_some_iff.1 h
  exact List.mem_append_right before List.mem_cons_self

namespace Rule

/-- A node of a definition, its notation resolved. -/
inductive Shape where
  | reference (name : String)
  | sequence (items : List Rule)
  | choice (branches : List Rule)
  | repeated (body : Rule)
  | ahead (body : Rule)
  | notAhead (body : Rule)
  | optional (body : Rule)
  | literal (text : String)
  | regex (source : String)
  | eof
  | indent
  | script (source : String)
  | annotated (value : Rule)
  /-- No definition; the error is told with the name of the rule. -/
  | wrong (error : String → CompileError)

/-- The shape of a combinator applied to a value. -/
def shapeOf (value : Rule) : Keyword → Shape
  | .sequence =>
    match value with
    | .list items => .sequence items
    | _ => .wrong (.shape · .sequenceWithoutList)
  | .choice =>
    match value with
    | .list (branch :: more) => .choice (branch :: more)
    | _ => .wrong (.shape · .choiceWithoutBranches)
  | .repeated => .repeated value
  | .ahead => .ahead value
  | .notAhead => .notAhead value
  | .optional => .optional value
  | .literal =>
    match value with
    | .text literal => .literal literal
    | _ => .wrong (.shape · .literalWithoutText)
  | .regex =>
    match Lead.patternText? value with
    | some source => .regex source
    | none => .wrong (.shape · .regexWithoutPattern)
  | .eof => .eof
  | .indent => .indent
  | .script =>
    match value with
    | .text source => .script source
    | _ => .wrong (.shape · .scriptWithoutSource)
  | .astNode => labelled .astNode
  | .astProp => labelled .astProp
where
  /-- The shape of an annotation. -/
  labelled (keyword : Keyword) : Shape :=
    match value with
    | .map entries =>
      match entries.lookup "value" with
      | some inner => .annotated inner
      | none => .wrong (.shape · (.annotationWithoutValue keyword))
    | _ => .wrong (.shape · (.annotationWithoutMap keyword))

/-- The shape of a definition. -/
def shape : Rule → Shape
  | .text name => .reference name
  | .list items => .sequence items
  | .map [(key, value)] =>
    match Keyword.ofKey? key with
    | some keyword => shapeOf value keyword
    | none =>
      if Keyword.isReserved key then .wrong (.unknownCombinator · key)
      else .wrong (.shape · (.mapWithKey key))
  | .map entries => .wrong (.shape · (.mapWithKeys (entries.map Prod.fst)))

/-- The definitions that a node is made of, from left to right. -/
def Shape.parts : Shape → List Rule
  | .sequence items => items
  | .choice branches => branches
  | .repeated body | .ahead body | .notAhead body | .optional body => [body]
  | .annotated value => [value]
  | .reference _ | .literal _ | .regex _ | .eof | .indent | .script _ | .wrong _ => []

private theorem shapeOf_ne_reference (value : Rule) (keyword : Keyword) (name : String) :
    shapeOf value keyword ≠ .reference name := by
  cases keyword <;> simp only [shapeOf, shapeOf.labelled] <;> intro h
  case astNode | astProp =>
    split at h
    · split at h <;> cases h
    · cases h
  all_goals first
    | cases h
    | (split at h <;> cases h)

theorem eq_text_of_shape {r : Rule} {name : String} (h : r.shape = .reference name) :
    r = .text name := by
  rw [shape.eq_def] at h
  split at h
  · cases h
    rfl
  · cases h
  · split at h
    · exact (shapeOf_ne_reference _ _ _ h).elim
    · split at h <;> cases h
  · cases h

/-! ### Induction on parts -/

private theorem sizeOf_lookup_lt {key : String} {value : Rule} {entries : List (String × Rule)}
    (h : entries.lookup key = some value) : sizeOf value < sizeOf entries := by
  have hlt := List.sizeOf_lt_of_mem (mem_of_lookup h)
  simp only [Prod.mk.sizeOf_spec] at hlt
  omega

private theorem sizeOf_le_of_mem_parts_shapeOf {value part : Rule} {keyword : Keyword}
    (h : part ∈ (shapeOf value keyword).parts) : sizeOf part ≤ sizeOf value := by
  have hitems : ∀ items : List Rule, part ∈ items → sizeOf part ≤ sizeOf (Rule.list items) := by
    intro items hmem
    have := List.sizeOf_lt_of_mem hmem
    simp only [Rule.list.sizeOf_spec]
    omega
  have hlabelled : ∀ keyword, part ∈ (shapeOf.labelled value keyword).parts →
      sizeOf part ≤ sizeOf value := by
    intro keyword hmem
    rw [shapeOf.labelled.eq_def] at hmem
    split at hmem
    · split at hmem
      · rename_i entries _ inner hlookup
        rw [Shape.parts, List.mem_singleton] at hmem
        have := sizeOf_lookup_lt hlookup
        simp only [hmem, Rule.map.sizeOf_spec]
        omega
      · cases hmem
    · cases hmem
  cases keyword <;> simp only [shapeOf] at h
  case sequence =>
    split at h
    · exact hitems _ h
    · cases h
  case choice =>
    split at h
    · exact hitems _ h
    · cases h
  case literal => split at h <;> cases h
  case regex => split at h <;> cases h
  case script => split at h <;> cases h
  case astNode => exact hlabelled _ h
  case astProp => exact hlabelled _ h
  case eof => cases h
  case indent => cases h
  all_goals exact Nat.le_of_eq (congrArg sizeOf (List.mem_singleton.1 h))

theorem sizeOf_lt_of_mem_parts {r part : Rule} (h : part ∈ r.shape.parts) :
    sizeOf part < sizeOf r := by
  rw [shape.eq_def] at h
  split at h
  · cases h
  · rename_i items
    have : sizeOf part < sizeOf items := List.sizeOf_lt_of_mem h
    simp only [Rule.list.sizeOf_spec]
    omega
  · rename_i key value
    split at h
    · have := sizeOf_le_of_mem_parts_shapeOf h
      simp only [Rule.map.sizeOf_spec, List.cons.sizeOf_spec, Prod.mk.sizeOf_spec]
      omega
    · split at h <;> cases h
  · cases h

/-- What holds of a definition whenever it holds of its parts holds of every definition. -/
theorem induction_on_parts {P : Rule → Prop} (step : ∀ r, (∀ part ∈ r.shape.parts, P part) → P r)
    (r : Rule) : P r :=
  step r (fun part hpart =>
    have := sizeOf_lt_of_mem_parts hpart
    induction_on_parts step part)
termination_by sizeOf r

end Rule

end PegGrammar
