import PegGrammar.Proofs.Compile.Result

/-!
# Well-formed definitions

What a definition has to look like, in terms of the notation. Whether names are defined is asked of each text where
it stands, whether their definitions are well-formed is not. Compiling goes by shapes, and a definition is well-formed
if its annotation is in order, its shape is none of those that are turned down, and its parts are well-formed.
-/

namespace PegGrammar

/-- The fields of an annotation: a part as its value, a text in a required field, and no fields beyond those and
the optional ones. -/
structure Rule.Annotates (entries : List (String × Rule)) (part : Rule) (required : String)
    (optional : List String) : Prop where
  value : entries.lookup "value" = some part
  field : ∃ text, entries.lookup required = some (.text text)
  known : ∀ entry ∈ entries, entry.1 ∈ "value" :: required :: optional

/-- The definitions that are accepted: names that stand for something, lists of definitions, and maps that apply
one combinator to what it expects. -/
inductive Compiler.WellFormed (c : Compiler) : Rule → Prop
  | replaced {name : String} {q : Parser} : c.overrides.lookup name = some q → WellFormed c (.text name)
  | defined {name : String} {definition : Rule} : c.grammar.lookup name = some definition →
      WellFormed c (.text name)
  | builtIn {name : String} : name ∈ ["$eof", "$indent"] → WellFormed c (.text name)
  | bare {text : String} : c.config.bareLiterals = true → text ≠ "" → WellFormed c (.text text)
  | list {items : List Rule} : (∀ item ∈ items, WellFormed c item) → WellFormed c (.list items)
  | sequence {items : List Rule} : (∀ item ∈ items, WellFormed c item) →
      WellFormed c (.map [("$sequence", .list items)])
  | choice {branches : List Rule} : branches ≠ [] → (∀ branch ∈ branches, WellFormed c branch) →
      WellFormed c (.map [("$or", .list branches)])
  | around {key : String} {part : Rule} : key ∈ ["$repeat", "$and", "$not", "$optional"] →
      WellFormed c part → WellFormed c (.map [(key, part)])
  | literal {text : String} : text ≠ "" → WellFormed c (.map [("$literal", .text text)])
  | regex {value : Rule} {source : String} :
      value = .text source ∨ value.field? "regex" = some (.text source) →
      (Parser.ofPattern? source).isSome = true → WellFormed c (.map [("$regex", value)])
  | script {key source : String} {handle : Nat} : key ∈ ["$script", "$lua"] →
      c.scripts.compile source = .ok handle → WellFormed c (.map [(key, .text source)])
  | ignored {key : String} {value : Rule} : key ∈ ["$eof", "$indent"] → WellFormed c (.map [(key, value)])
  | astNode {entries : List (String × Rule)} {part : Rule} :
      Rule.Annotates entries part "type" ["properties"] →
      (∀ value, entries.lookup "properties" = some value → ∃ properties, value = .map properties) →
      WellFormed c part → WellFormed c (.map [("$ast-node", .map entries)])
  | astProp {entries : List (String × Rule)} {part : Rule} :
      Rule.Annotates entries part "name" ["as-list", "as-literal"] →
      (∀ flag ∈ ["as-list", "as-literal"], ∀ value, entries.lookup flag = some value →
        value ∈ [.text "true", .text "false"]) →
      WellFormed c part → WellFormed c (.map [("$ast-prop", .map entries)])

/-- What a combinator is applied to is in order, if it is an annotation. -/
def Rule.Labels (value : Rule) : Keyword → Prop
  | .astNode => ∃ entries, value = .map entries ∧
      (∃ part, Annotates entries part "type" ["properties"]) ∧
      ∀ value, entries.lookup "properties" = some value → ∃ properties, value = .map properties
  | .astProp => ∃ entries, value = .map entries ∧
      (∃ part, Annotates entries part "name" ["as-list", "as-literal"]) ∧
      ∀ flag ∈ ["as-list", "as-literal"], ∀ value, entries.lookup flag = some value →
        value ∈ [.text "true", .text "false"]
  | _ => True

/-- The annotation of a definition is in order, if it has one. -/
def Rule.Labelled : Rule → Prop
  | .map [(key, value)] => ∀ keyword, Keyword.ofKey? key = some keyword → value.Labels keyword
  | _ => True

/-- A shape that is not turned down, its parts left aside. -/
def Compiler.Fits (c : Compiler) : Rule.Shape → Prop
  | .reference name => (∃ q, c.overrides.lookup name = some q) ∨
      (∃ definition, c.grammar.lookup name = some definition) ∨ (c.undefined? name).isSome = true
  | .literal text => text ≠ ""
  | .regex source => (Parser.ofPattern? source).isSome = true
  | .script source => ∃ handle, c.scripts.compile source = .ok handle
  | .wrong _ => False
  | .sequence _ | .choice _ | .repeated _ | .ahead _ | .notAhead _ | .optional _ | .annotated _ | .eof
  | .indent => True

/-! ### By shape -/

theorem Rule.labelled_of_key {key : String} {value : Rule} (keyword : Keyword)
    (hkey : Keyword.ofKey? key = some keyword) (h : value.Labels keyword) :
    (Rule.map [(key, value)]).Labelled := by
  intro other hother
  cases hkey.symm.trans hother
  exact h

theorem Keyword.eq_of_ofKey? {key : String} {keyword : Keyword} (h : ofKey? key = some keyword) :
    key = keyword.key ∨ key = "$lua" ∧ keyword = .script := by
  rw [ofKey?] at h
  split at h
  · rename_i hlua
    exact .inr ⟨hlua, (Option.some.inj h).symm⟩
  · have hfound := List.find?_some h
    exact .inl (of_decide_eq_true hfound).symm

theorem Rule.patternText?_eq_some_iff {value : Rule} {source : String} :
    Lead.patternText? value = some source ↔
      value = .text source ∨ value.field? "regex" = some (.text source) := by
  have hfield : ∀ {value : Rule}, value.asText? = some source ↔ value = .text source := by
    intro value
    cases value <;> simp [asText?]
  cases value with
  | text name =>
    show some name = some source ↔ _
    simp [field?]
  | list items => simp [Lead.patternText?, field?]
  | map entries =>
    show ((map entries).field? "regex").bind asText? = some source ↔ _
    simp [Option.bind_eq_some_iff, hfield]

namespace Compiler.WellFormed

variable {c : Compiler}

theorem layer {r : Rule} (h : c.WellFormed r) :
    r.Labelled ∧ c.Fits r.shape ∧ ∀ part ∈ r.shape.parts, c.WellFormed part := by
  have none : ∀ part ∈ [], c.WellFormed part := fun part hpart => nomatch hpart
  cases h with
  | replaced hq => exact ⟨trivial, .inl ⟨_, hq⟩, none⟩
  | defined hdefinition => exact ⟨trivial, .inr (.inl ⟨_, hdefinition⟩), none⟩
  | builtIn hname =>
    refine ⟨trivial, .inr (.inr ?_), none⟩
    simp only [List.mem_cons, List.not_mem_nil, or_false] at hname
    rcases hname with rfl | rfl <;> rfl
  | bare hbare hne =>
    refine ⟨trivial, .inr (.inr ?_), none⟩
    rw [Compiler.undefined?]
    split
    · rfl
    split
    · rfl
    rw [if_pos ⟨hbare, hne⟩]
    rfl
  | list hitems => exact ⟨trivial, trivial, hitems⟩
  | sequence hitems =>
    exact ⟨Rule.labelled_of_key .sequence rfl trivial, trivial, hitems⟩
  | @choice branches hne hbranches =>
    cases branches with
    | nil => exact (hne rfl).elim
    | cons branch more => exact ⟨Rule.labelled_of_key .choice rfl trivial, trivial, hbranches⟩
  | around hkey hpart =>
    have hparts := List.forall_mem_singleton.2 hpart
    simp only [List.mem_cons, List.not_mem_nil, or_false] at hkey
    rcases hkey with rfl | rfl | rfl | rfl
    · exact ⟨Rule.labelled_of_key .repeated rfl trivial, trivial, hparts⟩
    · exact ⟨Rule.labelled_of_key .ahead rfl trivial, trivial, hparts⟩
    · exact ⟨Rule.labelled_of_key .notAhead rfl trivial, trivial, hparts⟩
    · exact ⟨Rule.labelled_of_key .optional rfl trivial, trivial, hparts⟩
  | literal hne => exact ⟨Rule.labelled_of_key .literal rfl trivial, hne, none⟩
  | @regex value source hvalue hpattern =>
    have hshape : (Rule.map [("$regex", value)]).shape = .regex source := by
      show Rule.shapeOf value .regex = _
      rw [Rule.shapeOf, Rule.patternText?_eq_some_iff.2 hvalue]
    rw [hshape]
    exact ⟨Rule.labelled_of_key .regex rfl trivial, hpattern, none⟩
  | script hkey hcompile =>
    simp only [List.mem_cons, List.not_mem_nil, or_false] at hkey
    rcases hkey with rfl | rfl
    all_goals exact ⟨Rule.labelled_of_key .script rfl trivial, ⟨_, hcompile⟩, none⟩
  | ignored hkey =>
    simp only [List.mem_cons, List.not_mem_nil, or_false] at hkey
    rcases hkey with rfl | rfl
    · exact ⟨Rule.labelled_of_key .eof rfl trivial, trivial, none⟩
    · exact ⟨Rule.labelled_of_key .indent rfl trivial, trivial, none⟩
  | @astNode entries part hannotates hproperties hpart =>
    have hshape : (Rule.map [("$ast-node", .map entries)]).shape = .annotated part := by
      show Rule.shapeOf.labelled (.map entries) .astNode = _
      rw [Rule.shapeOf.labelled, hannotates.value]
    rw [hshape]
    exact ⟨Rule.labelled_of_key .astNode rfl ⟨entries, rfl, ⟨part, hannotates⟩, hproperties⟩,
      trivial, List.forall_mem_singleton.2 hpart⟩
  | @astProp entries part hannotates hflags hpart =>
    have hshape : (Rule.map [("$ast-prop", .map entries)]).shape = .annotated part := by
      show Rule.shapeOf.labelled (.map entries) .astProp = _
      rw [Rule.shapeOf.labelled, hannotates.value]
    rw [hshape]
    exact ⟨Rule.labelled_of_key .astProp rfl ⟨entries, rfl, ⟨part, hannotates⟩, hflags⟩,
      trivial, List.forall_mem_singleton.2 hpart⟩

private theorem of_combinator {key : String} {value : Rule} {keyword : Keyword}
    (hkey : key = keyword.key ∨ key = "$lua" ∧ keyword = .script) (hlabels : value.Labels keyword)
    (hfits : c.Fits (value.shapeOf keyword)) (hparts : ∀ part ∈ (value.shapeOf keyword).parts, c.WellFormed part) :
    c.WellFormed (.map [(key, value)]) := by
  have hscript : ∀ key ∈ ["$script", "$lua"], c.Fits (value.shapeOf .script) →
      c.WellFormed (.map [(key, value)]) := by
    intro key hkey hfits
    cases value with
    | text source => exact .script hkey hfits.choose_spec
    | list items => exact hfits.elim
    | map entries => exact hfits.elim
  rcases hkey with rfl | ⟨rfl, rfl⟩
  · cases keyword with
    | sequence =>
      cases value with
      | list items => exact .sequence hparts
      | text name => exact hfits.elim
      | map entries => exact hfits.elim
    | choice =>
      cases value with
      | list items =>
        cases items with
        | nil => exact hfits.elim
        | cons branch more => exact .choice (List.cons_ne_nil _ _) hparts
      | text name => exact hfits.elim
      | map entries => exact hfits.elim
    | repeated => exact .around (by decide) (hparts value List.mem_cons_self)
    | ahead => exact .around (by decide) (hparts value List.mem_cons_self)
    | notAhead => exact .around (by decide) (hparts value List.mem_cons_self)
    | optional => exact .around (by decide) (hparts value List.mem_cons_self)
    | literal =>
      cases value with
      | text name => exact .literal hfits
      | list items => exact hfits.elim
      | map entries => exact hfits.elim
    | regex =>
      rw [Rule.shapeOf] at hfits
      cases hsource : Lead.patternText? value with
      | none =>
        rw [hsource] at hfits
        exact hfits.elim
      | some source =>
        rw [hsource] at hfits
        exact .regex (Rule.patternText?_eq_some_iff.1 hsource) hfits
    | eof => exact .ignored (by decide)
    | indent => exact .ignored (by decide)
    | script => exact hscript _ (by decide) hfits
    | astNode =>
      obtain ⟨entries, rfl, ⟨part, hannotates⟩, hproperties⟩ := hlabels
      rw [Rule.shapeOf, Rule.shapeOf.labelled, hannotates.value] at hparts
      exact .astNode hannotates hproperties (hparts part List.mem_cons_self)
    | astProp =>
      obtain ⟨entries, rfl, ⟨part, hannotates⟩, hflags⟩ := hlabels
      rw [Rule.shapeOf, Rule.shapeOf.labelled, hannotates.value] at hparts
      exact .astProp hannotates hflags (hparts part List.mem_cons_self)
  · exact hscript _ (by decide) hfits

/-- What is not turned down at any node is well-formed. -/
theorem of_layer {r : Rule} (hlabelled : r.Labelled) (hfits : c.Fits r.shape)
    (hparts : ∀ part ∈ r.shape.parts, c.WellFormed part) : c.WellFormed r := by
  rw [Rule.shape.eq_def] at hfits hparts
  split at hfits
  · rename_i name
    rcases hfits with ⟨q, hq⟩ | ⟨definition, hdefinition⟩ | hundefined
    · exact .replaced hq
    · exact .defined hdefinition
    · rw [Compiler.undefined?] at hundefined
      split at hundefined
      · rename_i heof
        exact .builtIn (heof ▸ by decide)
      split at hundefined
      · rename_i hindent
        exact .builtIn (hindent ▸ by decide)
      split at hundefined
      · rename_i hbare
        exact .bare hbare.1 hbare.2
      · cases hundefined
  · exact .list hparts
  · rename_i key value
    dsimp only at hfits hparts
    cases hkey : Keyword.ofKey? key with
    | none =>
      rw [hkey] at hfits
      dsimp only at hfits
      split at hfits <;> exact hfits.elim
    | some keyword =>
      rw [hkey] at hfits hparts
      exact of_combinator (Keyword.eq_of_ofKey? hkey) (hlabelled keyword hkey) hfits hparts
  · exact hfits.elim

end Compiler.WellFormed

end PegGrammar
