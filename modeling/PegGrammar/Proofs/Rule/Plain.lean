import PegGrammar.Proofs.Rule.Shape

/-!
# Plain notation

Some notation says nothing about what is matched: `$sequence` around a list, the annotations around what
they annotate, and the second spelling of `$script`. Plain notation does without, at any depth. A
definition that is written plainly has the shape that it had before, unless it was an annotation, and its
parts are the plain parts. What is wrong with a definition stays as it is.
-/

namespace PegGrammar

namespace Rule

mutual

/-- The definition in plain notation. -/
def plain : Rule → Rule
  | .text name => .text name
  | .list items => .list (plainItems items)
  | .map [(key, value)] =>
    match Keyword.ofKey? key with
    | none => .map [(key, value)]
    | some .sequence =>
      match value with
      | .list items => .list (plainItems items)
      | _ => .map [(key, value)]
    | some .choice =>
      match value with
      | .list branches => .map [(key, .list (plainItems branches))]
      | _ => .map [(key, value)]
    | some .repeated | some .ahead | some .notAhead | some .optional => .map [(key, plain value)]
    | some .literal | some .regex | some .eof | some .indent => .map [(key, value)]
    | some .script => .map [(Keyword.script.key, value)]
    | some .astNode | some .astProp =>
      match value with
      | .map entries => plainField (.map [(key, value)]) entries
      | _ => .map [(key, value)]
  | .map entries => .map entries

def plainItems : List Rule → List Rule
  | [] => []
  | r :: rules => plain r :: plainItems rules

/-- The field `value` of a map in plain notation, or `whole` if there is none. -/
def plainField (whole : Rule) : List (String × Rule) → Rule
  | [] => whole
  | (key, value) :: entries => if key = "value" then plain value else plainField whole entries

end

/-- The node with other definitions as its parts. -/
def Shape.mapParts (f : Rule → Rule) : Shape → Shape
  | .sequence items => .sequence (items.map f)
  | .choice branches => .choice (branches.map f)
  | .repeated body => .repeated (f body)
  | .ahead body => .ahead (f body)
  | .notAhead body => .notAhead (f body)
  | .optional body => .optional (f body)
  | .annotated value => .annotated (f value)
  | .reference name => .reference name
  | .literal characters => .literal characters
  | .regex source => .regex source
  | .eof => .eof
  | .indent => .indent
  | .script source => .script source
  | .wrong error => .wrong error

theorem Shape.eq_annotated_of_mapParts {f : Rule → Rule} {shape : Shape} {value : Rule}
    (h : shape.mapParts f = .annotated value) : ∃ value, shape = .annotated value := by
  cases shape <;> cases h
  exact ⟨_, rfl⟩

theorem Shape.eq_wrong_of_mapParts {f : Rule → Rule} {shape : Shape}
    {error : String → CompileError} (h : shape.mapParts f = .wrong error) : shape = .wrong error := by
  cases shape <;> cases h
  rfl

theorem plainItems_eq (rules : List Rule) : plainItems rules = rules.map plain := by
  induction rules with
  | nil => rw [plainItems, List.map_nil]
  | cons r rules ih => rw [plainItems, List.map_cons, ih]

theorem plainField_eq (whole : Rule) (entries : List (String × Rule)) :
    plainField whole entries = ((entries.lookup "value").map plain).getD whole := by
  induction entries with
  | nil => rw [plainField.eq_def, List.lookup_nil, Option.map_none, Option.getD_none]
  | cons entry entries ih =>
    obtain ⟨key, value⟩ := entry
    rw [plainField.eq_def, List.lookup_cons]
    dsimp only
    by_cases hkey : key = "value"
    · subst hkey
      rw [if_pos rfl, beq_self_eq_true, Option.map_some, Option.getD_some]
    · have hne : ("value" == key) = false := beq_eq_false_iff_ne.2 (Ne.symm hkey)
      rw [if_neg hkey, ih, hne]

theorem shape_combinator {key : String} {keyword : Keyword} (hkey : Keyword.ofKey? key = some keyword)
    (value : Rule) : (Rule.map [(key, value)]).shape = shapeOf value keyword := by
  rw [shape, hkey]

theorem shapeOf.labelled_cases (value : Rule) (keyword : Keyword) :
    (∃ inner, labelled value keyword = .annotated inner) ∨
      ∃ error, labelled value keyword = .wrong error := by
  rw [labelled.eq_def]
  split
  · split
    · exact .inl ⟨_, rfl⟩
    · exact .inr ⟨_, rfl⟩
  · exact .inr ⟨_, rfl⟩

/-- What plain notation makes of a node: an annotation becomes what it annotates, and anything else keeps
its shape. -/
def Shape.Plainly : Shape → Rule → Prop
  | .annotated value, r => r = value.plain
  | shape, r => r.shape = shape.mapParts plain

private theorem plainly_labelled (value : Rule) (keyword : Keyword) (whole : Rule) :
    whole.shape = shapeOf.labelled value keyword →
      (shapeOf.labelled value keyword).Plainly
        (match value with
          | .map entries => plainField whole entries
          | _ => whole) := by
  intro hshape
  rw [shapeOf.labelled.eq_def] at hshape ⊢
  cases value with
  | text name => exact hshape
  | list items => exact hshape
  | map entries =>
    dsimp only at hshape ⊢
    rw [plainField_eq]
    cases hlookup : entries.lookup "value" with
    | none =>
      rw [hlookup] at hshape
      exact hshape
    | some inner => rfl

private theorem plainly_combinator {key : String} {keyword : Keyword} (value : Rule)
    (hkey : Keyword.ofKey? key = some keyword) :
    (shapeOf value keyword).Plainly (plain (.map [(key, value)])) := by
  have hshape := shape_combinator hkey
  rw [plain.eq_def]
  dsimp only
  rw [hkey]
  cases keyword <;> dsimp only
  case sequence =>
    cases value with
    | list items => exact congrArg Shape.sequence (plainItems_eq items)
    | text name => exact hshape (.text name)
    | map entries => exact hshape (.map entries)
  case choice =>
    cases value with
    | list branches =>
      dsimp only
      rw [plainItems_eq]
      cases branches with
      | nil => exact hshape (.list [])
      | cons branch branches => exact hshape (.list (plain branch :: branches.map plain))
    | text name => exact hshape (.text name)
    | map entries => exact hshape (.map entries)
  case repeated => exact hshape value.plain
  case ahead => exact hshape value.plain
  case notAhead => exact hshape value.plain
  case optional => exact hshape value.plain
  case literal =>
    have h := hshape value
    cases value <;> exact h
  case regex =>
    have h := hshape value
    dsimp only [shapeOf] at h ⊢
    cases hpattern : Lead.patternText? value <;> rw [hpattern] at h <;> exact h
  case eof => exact hshape value
  case indent => exact hshape value
  case script =>
    have h := shape_combinator (Keyword.ofKey?_key .script) value
    cases value <;> exact h
  case astNode => exact plainly_labelled value .astNode _ (hshape value)
  case astProp => exact plainly_labelled value .astProp _ (hshape value)

theorem plainly_plain (r : Rule) : r.shape.Plainly r.plain := by
  cases r with
  | text name => rfl
  | list items =>
    rw [plain.eq_def]
    exact congrArg Shape.sequence (plainItems_eq items)
  | map entries =>
    by_cases hentries : ∃ key value, entries = [(key, value)]
    · obtain ⟨key, value, rfl⟩ := hentries
      cases hkey : Keyword.ofKey? key with
      | some keyword =>
        rw [shape_combinator hkey]
        exact plainly_combinator value hkey
      | none =>
        have hplain : (Rule.map [(key, value)]).plain = .map [(key, value)] := by
          rw [plain.eq_def]
          dsimp only
          rw [hkey]
        rw [hplain]
        cases hshape : (Rule.map [(key, value)]).shape with
        | wrong error => exact hshape
        | _ =>
          rw [shape, hkey] at hshape
          dsimp only at hshape
          split at hshape <;> cases hshape
    · have hmap : ∀ key value, entries = [(key, value)] → False :=
        fun key value h => hentries ⟨key, value, h⟩
      have hshape : (Rule.map entries).shape =
          .wrong (.shape · (.mapWithKeys (entries.map Prod.fst))) := by
        rw [shape]
        exact hmap
      have hplain : (Rule.map entries).plain = .map entries := by
        rw [plain]
        exact hmap
      rw [hplain, hshape]
      exact hshape

theorem plain_of_annotated {r value : Rule} (h : r.shape = .annotated value) :
    r.plain = value.plain := by
  have hplain := plainly_plain r
  rwa [h] at hplain

/-- Anything that is not an annotation keeps its shape. -/
theorem shape_plain {r : Rule} (h : ∀ value, r.shape ≠ .annotated value) :
    r.plain.shape = r.shape.mapParts plain := by
  have hplain := plainly_plain r
  cases hshape : r.shape with
  | annotated value => exact (h value hshape).elim
  | _ =>
    rw [hshape] at hplain
    exact hplain

end Rule

end PegGrammar
