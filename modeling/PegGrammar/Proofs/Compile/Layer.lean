import PegGrammar.Compile.Session
import PegGrammar.Proofs.Rule.Shape

/-!
# Compiling by shape

A definition is compiled by its shape, after its notation was noted and checked. This is the only place
that goes through the notation of definitions; everything else that is proved of compiling starts from
`body_eq`.
-/

namespace PegGrammar.Compiling

/-- The checks of an annotation. -/
def checks (value : Rule) : Keyword → Compiling Unit
  | .astNode => checkNode value
  | .astProp => checkProperty value
  | _ => pure ()

/-- What is done about the notation of a definition before it is compiled. -/
def introduction : Rule → Compiling Unit
  | .map [(key, value)] =>
    match Keyword.ofKey? key with
    | some keyword => do
      note ("compiling " ++ keyword.key)
      checks value keyword
    | none => pure ()
  | _ => pure ()

/-- The parser of a shape, made from the parsers of its parts. -/
def layer (compiler : Compiler) (ofRule : Rule → String → Compiling Parser) :
    Rule.Shape → Compiling Parser
  | .reference name => reference compiler ofRule name
  | .sequence items => do pure (.sequence (← bodies compiler ofRule items))
  | .choice rules => do pure (.choice (← branches compiler ofRule rules))
  | .repeated part => do pure (.repeated (← body compiler ofRule part))
  | .ahead part => do pure (.ahead (← body compiler ofRule part))
  | .notAhead part => do pure (.notAhead (← body compiler ofRule part))
  | .optional part => do pure (.optional (← body compiler ofRule part))
  | .literal text => literal text
  | .regex source =>
    match Parser.ofPattern? source with
    | some parser => pure parser
    | none => fail (fun rule => .regex rule source)
  | .eof => pure .eof
  | .indent => pure .indent
  | .script source =>
    match compiler.scripts.compile source with
    | .ok handle => pure (.script source handle)
    | .error reason => fail (fun rule => .script rule source reason)
  | .annotated value => body compiler ofRule value
  | .wrong error => fail error

/-- The parser of a text that is neither replaced nor defined. -/
def undefined (compiler : Compiler) (text : String) : Compiling Parser :=
  if text = Keyword.eof.key then pure .eof
  else if text = Keyword.indent.key then pure .indent
  else if compiler.config.bareLiterals then do
    note ("treating `" ++ text ++ "` as a literal")
    literal text
  else fail (fun rule => .unknownRule rule text)

variable (compiler : Compiler) (ofRule : Rule → String → Compiling Parser)

theorem reference_eq (text : String) :
    reference compiler ofRule text =
      match compiler.overrides.lookup text with
      | some parser => do
        note ("`" ++ text ++ "` is overridden")
        pure parser
      | none =>
        match compiler.grammar.lookup text with
        | some rule => ofRule rule text
        | none => undefined compiler text := rfl

theorem bodies_nil : bodies compiler ofRule [] = pure [] := by rw [bodies.eq_def]

theorem bodies_cons (r : Rule) (rules : List Rule) :
    bodies compiler ofRule (r :: rules) = (do
      let parser ← body compiler ofRule r
      let parsers ← bodies compiler ofRule rules
      pure (parser :: parsers)) := by
  rw [bodies.eq_def]

theorem branches_nil : branches compiler ofRule [] = pure [] := by rw [branches.eq_def]

theorem branches_cons (r : Rule) (rules : List Rule) :
    branches compiler ofRule (r :: rules) = (do
      let parser ← body compiler ofRule r
      let first ← branchLiterals compiler r
      let parsers ← branches compiler ofRule rules
      pure ((first, parser) :: parsers)) := by
  rw [branches.eq_def]

theorem annotated_eq (keyword : Keyword) (entries : List (String × Rule)) :
    annotated compiler ofRule keyword entries =
      match entries.lookup "value" with
      | some inner => body compiler ofRule inner
      | none => malformed (.annotationWithoutValue keyword) := by
  induction entries with
  | nil => rw [annotated.eq_def, List.lookup_nil]
  | cons entry entries ih =>
    obtain ⟨key, value⟩ := entry
    rw [annotated.eq_def, List.lookup_cons]
    dsimp only
    by_cases hkey : key = "value"
    · subst hkey
      rw [if_pos rfl, beq_self_eq_true]
    · have hne : ("value" == key) = false := beq_eq_false_iff_ne.2 (Ne.symm hkey)
      rw [if_neg hkey, ih, hne]

private theorem layer_labelled (value : Rule) (keyword : Keyword) :
    layer compiler ofRule (Rule.shapeOf.labelled value keyword) =
      match value with
      | .map entries => annotated compiler ofRule keyword entries
      | _ => malformed (.annotationWithoutMap keyword) := by
  rw [Rule.shapeOf.labelled.eq_def]
  cases value with
  | text name => rfl
  | list items => rfl
  | map entries =>
    dsimp only
    rw [annotated_eq]
    cases entries.lookup "value" <;> rfl

private theorem body_combinator {key : String} {keyword : Keyword} (value : Rule)
    (hkey : Keyword.ofKey? key = some keyword) :
    body compiler ofRule (.map [(key, value)]) = (do
      note ("compiling " ++ keyword.key)
      checks value keyword
      layer compiler ofRule (Rule.shapeOf value keyword)) := by
  rw [body.eq_def]
  dsimp only
  rw [hkey]
  dsimp only
  refine congrArg (note _ >>= ·) (funext fun _ => ?_)
  cases keyword <;> dsimp only [checks, Rule.shapeOf] <;> (try rw [pure_bind])
  case sequence => cases value <;> rfl
  case choice =>
    cases value with
    | list items => cases items <;> rfl
    | text name => rfl
    | map entries => rfl
  case literal => cases value <;> rfl
  case regex => cases Lead.patternText? value <;> rfl
  case script => cases value <;> rfl
  case astNode => cases value <;> rw [layer_labelled]
  case astProp => cases value <;> rw [layer_labelled]
  all_goals rfl

/-- A definition is compiled by its shape. -/
theorem body_eq (r : Rule) :
    body compiler ofRule r = (do
      introduction r
      layer compiler ofRule r.shape) := by
  cases r with
  | text name => exact (body.eq_def _ _ _).trans (pure_bind _ _).symm
  | list items => exact (body.eq_def _ _ _).trans (pure_bind _ _).symm
  | map entries =>
    by_cases hentries : ∃ key value, entries = [(key, value)]
    · obtain ⟨key, value, rfl⟩ := hentries
      rw [introduction, Rule.shape]
      cases hkey : Keyword.ofKey? key with
      | some keyword =>
        rw [body_combinator compiler ofRule value hkey]
        exact (bind_assoc _ _ _).symm
      | none =>
        rw [body.eq_def]
        dsimp only
        rw [hkey, pure_bind]
        dsimp only
        split <;> rfl
    · have hmap : ∀ key value, entries = [(key, value)] → False :=
        fun key value h => hentries ⟨key, value, h⟩
      have hintroduction : introduction (.map entries) = pure () := by
        rw [introduction]
        exact fun key value h => hmap key value (Rule.map.inj h)
      have hshape : (Rule.map entries).shape =
          .wrong (.shape · (.mapWithKeys (entries.map Prod.fst))) := by
        rw [Rule.shape]
        exact hmap
      rw [hintroduction, hshape, pure_bind, body.eq_def]
      split
      · rename_i h
        cases h
      · rename_i h
        cases h
      · rename_i key value h
        exact (hmap key value (Rule.map.inj h)).elim
      · rename_i h
        cases h
        rfl

end PegGrammar.Compiling
