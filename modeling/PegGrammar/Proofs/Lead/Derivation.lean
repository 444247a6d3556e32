import PegGrammar.Proofs.Finite.SortedSet
import PegGrammar.Proofs.Rule.Shape

/-!
# What definitions start with

What a match can start with, spelled out without any walk: by derivations, which expand a name wherever it
stands. A derivation expands names inside of each other to some depth, and has one no deeper for every name
that it expands. This is what makes it right to cut a walk short at a name that is being expanded already:
what the name starts with there it also starts with in a less deep derivation.
-/

namespace PegGrammar.Lead

/-- What a name starts with that is neither hidden nor defined. -/
def ofUndefined (context : LeadContext) (name : String) : FirstSet :=
  if name = Keyword.eof.key then .nothing
  else if name = Keyword.indent.key then .anything
  else if context.bareLiterals then .literal name
  else .anything

/-- What a shape starts with whatever its parts are. -/
def ofShape : Rule.Shape → FirstSet
  | .notAhead _ | .eof | .optional _ => .nothing
  | .literal text => if text = "" then .anything else .literal text
  | .regex source => ofPattern source
  | .indent | .script _ | .wrong _ => .anything
  | .reference _ | .sequence _ | .choice _ | .repeated _ | .ahead _ | .annotated _ => .empty

/-- The parts of a shape that a match can be one of. -/
def alternatives : Rule.Shape → List Rule
  | .choice branches => branches
  | .repeated part | .ahead part | .optional part | .annotated part => [part]
  | .reference _ | .sequence _ | .notAhead _ | .literal _ | .regex _ | .eof | .indent | .script _
  | .wrong _ => []

theorem alternatives_subset (shape : Rule.Shape) : alternatives shape ⊆ shape.parts := by
  cases shape <;> simp [alternatives, Rule.Shape.parts]

/-- A match of a definition can start with a lead; names are expanded inside of each other at most `depth`
times. -/
inductive Starts (context : LeadContext) : Nat → Rule → Lead → Prop
  | hidden {depth : Nat} {name : String} : name ∈ context.hidden →
      Starts context depth (.text name) .anything
  | named {depth : Nat} {name : String} {definition : Rule} {lead : Lead} : name ∉ context.hidden →
      context.grammar.lookup name = some definition → Starts context depth definition lead →
      Starts context (depth + 1) (.text name) lead
  | undefined {depth : Nat} {name : String} {lead : Lead} : name ∉ context.hidden →
      context.grammar.lookup name = none → lead ∈ (ofUndefined context name).items →
      Starts context depth (.text name) lead
  | leaf {depth : Nat} {r : Rule} {lead : Lead} : lead ∈ (ofShape r.shape).items →
      Starts context depth r lead
  | alternative {depth : Nat} {r part : Rule} {lead : Lead} : part ∈ alternatives r.shape →
      Starts context depth part lead → Starts context depth r lead
  | item {depth : Nat} {r item : Rule} {front back : List Rule} {lead : Lead} :
      r.shape = .sequence (front ++ item :: back) → (∀ x ∈ front, Starts context depth x .nothing) →
      Starts context depth item lead → lead ≠ .nothing → Starts context depth r lead
  | empty {depth : Nat} {r : Rule} {items : List Rule} : r.shape = .sequence items →
      (∀ x ∈ items, Starts context depth x .nothing) → Starts context depth r .nothing

variable {context : LeadContext}

theorem Starts.mono {depth depth' : Nat} {r : Rule} {lead : Lead} (h : Starts context depth r lead)
    (hle : depth ≤ depth') : Starts context depth' r lead := by
  induction h generalizing depth' with
  | hidden hname => exact .hidden hname
  | named hname hlookup _ ih =>
    obtain ⟨more, rfl⟩ := Nat.exists_eq_add_of_lt hle
    exact .named hname hlookup (ih (Nat.le_add_right _ more))
  | undefined hname hlookup hlead => exact .undefined hname hlookup hlead
  | leaf hlead => exact .leaf hlead
  | alternative hpart _ ih => exact .alternative hpart (ih hle)
  | item hshape _ _ hne ihfront ih => exact .item hshape (fun x hx => ihfront x hx hle) (ih hle) hne
  | empty hshape _ ih => exact .empty hshape (fun x hx => ih x hx hle)

/-- What a defined name starts with, its definition starts with, one expansion less deep. -/
theorem Starts.of_name {depth : Nat} {name : String} {definition : Rule} {lead : Lead}
    (h : Starts context depth (.text name) lead) (hname : name ∉ context.hidden)
    (hlookup : context.grammar.lookup name = some definition) :
    ∃ less, depth = less + 1 ∧ Starts context less definition lead := by
  cases h with
  | hidden hhidden => exact (hname hhidden).elim
  | named _ hfound hstarts =>
    cases hlookup.symm.trans hfound
    exact ⟨_, rfl, hstarts⟩
  | undefined _ hnone => cases hlookup.symm.trans hnone
  | leaf hlead => cases hlead
  | alternative hpart => cases hpart
  | item hshape => cases hshape
  | empty hshape => cases hshape

/-! ### Walking by shape -/

/-- The walk through a definition of some shape. -/
def walkShape (ofName : String → Walk) (onlyStart : Bool) : Rule.Shape → Walk
  | .reference name => ofName name
  | .sequence items => walkList ofName onlyStart .empty items
  | .choice branches => walkBranches ofName onlyStart .empty branches
  | .repeated part | .ahead part | .annotated part => walk ofName onlyStart part
  | .optional part => fun state =>
    let (found, state) := walk ofName onlyStart part state
    (found.insert .nothing, state)
  | .notAhead part => .pure (ofShape (.notAhead part))
  | .literal text => .pure (ofShape (.literal text))
  | .regex source => .pure (ofShape (.regex source))
  | .eof => .pure (ofShape .eof)
  | .indent => .pure (ofShape .indent)
  | .script source => .pure (ofShape (.script source))
  | .wrong error => .pure (ofShape (.wrong error))

variable (ofName : String → Walk) (onlyStart : Bool)

theorem walkField_eq (entries : List (String × Rule)) :
    walkField ofName onlyStart entries =
      match entries.lookup "value" with
      | some inner => walk ofName onlyStart inner
      | none => .pure .anything := by
  induction entries with
  | nil => rw [walkField.eq_def, List.lookup_nil]
  | cons entry entries ih =>
    obtain ⟨key, value⟩ := entry
    rw [walkField.eq_def, List.lookup_cons]
    dsimp only
    by_cases hkey : key = "value"
    · subst hkey
      rw [if_pos rfl, beq_self_eq_true]
    · have hne : ("value" == key) = false := beq_eq_false_iff_ne.2 (Ne.symm hkey)
      rw [if_neg hkey, ih, hne]

private theorem walkShape_labelled (value : Rule) (keyword : Keyword) :
    walkShape ofName onlyStart (Rule.shapeOf.labelled value keyword) =
      match value with
      | .map entries => walkField ofName onlyStart entries
      | _ => .pure .anything := by
  rw [Rule.shapeOf.labelled.eq_def]
  cases value with
  | text name => rfl
  | list items => rfl
  | map entries =>
    dsimp only
    rw [walkField_eq]
    cases entries.lookup "value" <;> rfl

private theorem walk_combinator {key : String} {keyword : Keyword} (value : Rule)
    (hkey : Keyword.ofKey? key = some keyword) :
    walk ofName onlyStart (.map [(key, value)]) =
      walkShape ofName onlyStart (Rule.shapeOf value keyword) := by
  rw [walk.eq_def]
  dsimp only
  rw [hkey]
  cases keyword <;> dsimp only [Rule.shapeOf]
  case sequence => cases value <;> rfl
  case choice =>
    cases value with
    | list items => cases items <;> rfl
    | text name => rfl
    | map entries => rfl
  case literal => cases value <;> rfl
  case regex => cases patternText? value <;> rfl
  case script => cases value <;> rfl
  case astNode => cases value <;> rw [walkShape_labelled]
  case astProp => cases value <;> rw [walkShape_labelled]
  all_goals rfl

/-- A definition is walked through by its shape. -/
theorem walk_eq (r : Rule) : walk ofName onlyStart r = walkShape ofName onlyStart r.shape := by
  cases r with
  | text name => exact walk.eq_def _ _ _
  | list items => exact walk.eq_def _ _ _
  | map entries =>
    by_cases hentries : ∃ key value, entries = [(key, value)]
    · obtain ⟨key, value, rfl⟩ := hentries
      rw [Rule.shape]
      cases hkey : Keyword.ofKey? key with
      | some keyword => exact walk_combinator ofName onlyStart value hkey
      | none =>
        rw [walk.eq_def]
        dsimp only
        rw [hkey]
        dsimp only
        split <;> rfl
    · have hmap : ∀ key value, entries = [(key, value)] → False :=
        fun key value h => hentries ⟨key, value, h⟩
      have hshape : (Rule.map entries).shape =
          .wrong (.shape · (.mapWithKeys (entries.map Prod.fst))) := by
        rw [Rule.shape]
        exact hmap
      rw [hshape, walk.eq_def]
      split
      · rename_i h
        cases h
      · rename_i h
        cases h
      · rename_i key value h
        exact (hmap key value (Rule.map.inj h)).elim
      · rfl

end PegGrammar.Lead
