import PegGrammar.Proofs.Json.Lexing
import PegGrammar.Proofs.Rule.Ordered
import PegGrammar.Sample.Basic

/-!
# Reading back what was printed

The reader goes through the lexemes of a printed rule and comes to hand the rule to the list or map
that it stands in, as it does for a single string. The only thing that can go wrong on the way is
that too many lists and maps are open, and the deepest place of the rule decides on that.
-/

namespace PegGrammar

namespace Rule

mutual

/-- How many lists and maps are open at the deepest place of a rule. -/
def depth : Rule → Nat
  | .text _ => 0
  | .list items => depthOfItems items + 1
  | .map entries => depthOfEntries entries + 1

def depthOfItems : List Rule → Nat
  | [] => 0
  | item :: items => max item.depth (depthOfItems items)

def depthOfEntries : List (String × Rule) → Nat
  | [] => 0
  | (_, value) :: entries => max value.depth (depthOfEntries entries)

end

end Rule

namespace Json

open Rule (lexemesOfItems lexemesOfEntries depthOfItems depthOfEntries insertEntry)

/-- Goes on behind a lexeme, unless it was refused. -/
def resume (outcome : Except Error (List Frame × Expected)) (ls : List Lexeme) :
    Except Error Rule :=
  outcome.bind (fun (frames, expected) => readAll frames expected ls)

@[simp]
theorem resume_ok (frames : List Frame) (expected : Expected) (ls : List Lexeme) :
    resume (.ok (frames, expected)) ls = readAll frames expected ls := rfl

theorem readAll_cons (frames : List Frame) (expected : Expected) (lexeme : Lexeme)
    (ls : List Lexeme) :
    readAll frames expected (lexeme :: ls) = resume (step frames expected lexeme) ls := by
  rw [readAll, resume]
  cases step frames expected lexeme <;> rfl

/-- Whether a value may come next. -/
def Expected.takesValue (expected : Expected) : Prop := expected = .value ∨ expected = .itemOrEnd

theorem step_of_takesValue {expected : Expected} (h : expected.takesValue) {lexeme : Lexeme}
    (hclose : lexeme ≠ .closeList) (frames : List Frame) :
    step frames expected lexeme = value frames lexeme := by
  rcases h with rfl | rfl
  · cases frames <;> rfl
  · cases frames with
    | nil => rfl
    | cons frame frames => cases frame <;> cases lexeme <;> first | rfl | exact absurd rfl hclose

/-- What comes of a value that opens `depth` more lists and maps: it is handed over, or too many are
open at some place of it. -/
def outcome (frames : List Frame) (depth : Nat) (r : Rule) (ls : List Lexeme) : Except Error Rule :=
  if frames.length + depth ≤ maxOpen then resume (finish r frames) ls else .error .malformed

section

variable {frames : List Frame} {r : Rule} {ls : List Lexeme} {d : Nat}

theorem outcome_of_le (h : frames.length + d ≤ maxOpen) :
    outcome frames d r ls = resume (finish r frames) ls := if_pos h

theorem outcome_of_lt (h : maxOpen < frames.length + d) :
    outcome frames d r ls = .error .malformed := if_neg (by omega)

end

/-- A part of a list or map is read as far as it does not nest too deep, and then the rest is. -/
private theorem outcome_part {part r : Rule} {frame after : Frame} {frames : List Frame} {d e : Nat}
    {rest ls : List Lexeme}
    (hfinish : finish part (frame :: frames) = .ok (after :: frames, .commaOrEnd))
    (hrest : readAll (after :: frames) .commaOrEnd rest = outcome frames (e + 1) r ls) :
    outcome (frame :: frames) d part rest = outcome frames (max d e + 1) r ls := by
  rw [outcome, List.length_cons]
  split
  · rw [hfinish, resume_ok, hrest, outcome, outcome]
    congr 1
    simp only [eq_iff_iff]
    omega
  · rw [outcome_of_lt (by omega)]

mutual

theorem readAll_lexemes (frames : List Frame) (hopen : frames.length ≤ maxOpen)
    {expected : Expected} (hexpected : expected.takesValue) (ls : List Lexeme) :
    ∀ {r : Rule}, r.Ordered →
      readAll frames expected (r.lexemes ++ ls) = outcome frames r.depth r ls
  | .text s, _ => by
    rw [Rule.lexemes, List.singleton_append, readAll_cons, step_of_takesValue hexpected (by simp),
      Rule.depth, outcome_of_le hopen]
    rfl
  | .list items, hr => by
    rw [Rule.lexemes, List.cons_append, List.cons_append, readAll_cons,
      step_of_takesValue hexpected (by simp), value, push, Rule.depth]
    split
    · rename_i hlt
      have hitems := Rule.ordered_list.1 hr
      simpa using readAll_lexemesOfItems frames hlt ls hitems [] true (fun _ => rfl)
    · rw [outcome_of_lt (by omega)]
      rfl
  | .map entries, hr => by
    rw [Rule.lexemes, List.cons_append, List.cons_append, readAll_cons,
      step_of_takesValue hexpected (by simp), value, push, Rule.depth]
    split
    · rename_i hlt
      simpa using readAll_lexemesOfEntries frames hlt ls [] hr "" true (fun _ => rfl)
    · rw [outcome_of_lt (by omega)]
      rfl

theorem readAll_lexemesOfItems (frames : List Frame) (hopen : frames.length < maxOpen)
    (ls : List Lexeme) :
    ∀ {items : List Rule}, (∀ item ∈ items, item.Ordered) → ∀ (done : List Rule) (first : Bool),
      (first = true → done = []) →
      readAll (.list done :: frames) (if first then .itemOrEnd else .commaOrEnd)
        (lexemesOfItems first items ++ .closeList :: ls)
        = outcome frames (depthOfItems items + 1) (.list (done.reverse ++ items)) ls
  | [], _, done, first, hfirst => by
    rw [depthOfItems, outcome_of_le (by omega), List.append_nil]
    cases first
    · exact readAll_cons _ _ _ _
    · obtain rfl := hfirst rfl
      exact readAll_cons _ _ _ _
  | item :: items, hitems, done, first, hfirst => by
    obtain ⟨hitem, hitems⟩ := List.forall_mem_cons.1 hitems
    have hrest := readAll_lexemesOfItems frames hopen ls hitems (item :: done) false (by simp)
    have hdivided : ∃ expected : Expected, expected.takesValue ∧ ∀ rest,
        readAll (.list done :: frames) (if first then .itemOrEnd else .commaOrEnd)
          ((if first then [] else [.comma]) ++ rest)
          = readAll (.list done :: frames) expected rest := by
      cases first
      · exact ⟨.value, .inl rfl, fun _ => rfl⟩
      · exact ⟨.itemOrEnd, .inr rfl, fun _ => rfl⟩
    obtain ⟨expected, hexpected, hdivided⟩ := hdivided
    rw [lexemesOfItems, List.append_assoc, List.append_assoc, hdivided,
      readAll_lexemes (.list done :: frames) hopen hexpected _ hitem, depthOfItems,
      outcome_part rfl hrest]
    simp

theorem readAll_lexemesOfEntries (frames : List Frame) (hopen : frames.length < maxOpen)
    (ls : List Lexeme) :
    ∀ {entries : List (String × Rule)} (done : List (String × Rule)),
      (Rule.map (done ++ entries)).Ordered → ∀ (last : String) (first : Bool),
      (first = true → done = []) →
      readAll (.map done last :: frames) (if first then .keyOrEnd else .commaOrEnd)
        (lexemesOfEntries first entries ++ .closeMap :: ls)
        = outcome frames (depthOfEntries entries + 1) (.map (done ++ entries)) ls
  | [], done, _, last, first, hfirst => by
    rw [depthOfEntries, outcome_of_le (by omega), List.append_nil]
    cases first
    · exact readAll_cons _ _ _ _
    · obtain rfl := hfirst rfl
      exact readAll_cons _ _ _ _
  | (key, value) :: entries, done, hentries, last, first, hfirst => by
    obtain ⟨hkeys, hvalues⟩ := Rule.ordered_map.1 hentries
    have hvalue : value.Ordered := hvalues (key, value) (by simp)
    have hlarger : ∀ entry ∈ done, entry.1 < key := fun entry hentry =>
      (List.pairwise_append.1 hkeys).2.2 entry hentry (key, value) List.mem_cons_self
    rw [List.append_cons] at hentries
    have hfinish : finish value (.map done key :: frames)
        = .ok (.map (done ++ [(key, value)]) key :: frames, .commaOrEnd) := by
      rw [finish, Rule.lookup_of_forall_lt hlarger, Rule.insertEntry_of_forall_lt key value hlarger]
      rfl
    have hrest := readAll_lexemesOfEntries frames hopen ls _ hentries key false (by simp)
    have hdivided : ∀ rest,
        readAll (.map done last :: frames) (if first then .keyOrEnd else .commaOrEnd)
          ((if first then [] else [.comma]) ++ .string key :: .colon :: rest)
          = readAll (.map done key :: frames) .value rest := by
      cases first <;> exact fun _ => rfl
    simp only [lexemesOfEntries, List.append_assoc, List.cons_append, List.nil_append]
    rw [hdivided, readAll_lexemes (.map done key :: frames) hopen (.inl rfl) _ hvalue,
      depthOfEntries, outcome_part hfinish hrest, ← List.append_cons]

end

end Json

namespace Rule

/-- A printed rule is read back, unless it nests too deep. -/
theorem ofJson?_render {r : Rule} (hr : r.Ordered) :
    ofJson? r.render = if r.depth ≤ Json.maxOpen then .ok r else .error .malformed := by
  have h := Json.readAll_lexemes [] (Nat.zero_le _) (.inl rfl) [] hr
  rw [List.append_nil] at h
  rw [ofJson?, lexemes_render, h, Json.outcome, List.length_nil, Nat.zero_add]
  rfl

theorem grammarOfJson_render {entries : List (String × Rule)} (hr : (Rule.map entries).Ordered)
    (hdepth : (Rule.map entries).depth ≤ Json.maxOpen) :
    grammarOfJson (Rule.map entries).render = .ok (.map entries) := by
  rw [grammarOfJson, ofJson?_render hr, if_pos hdepth]
  rfl

end Rule

namespace Sample

/-! ### Samples -/

private theorem grammarKey_lt : grammarKey < inputsKey := by decide

theorem toRule_eq (s : Sample) : s.toRule
    = .map [(grammarKey, s.grammar), (inputsKey, .list (s.inputs.map Rule.text))] := by
  refine congrArg Rule.map (Rule.insertEntry_of_forall_lt _ _ fun entry hentry => ?_)
  rw [List.mem_singleton.1 hentry]
  exact grammarKey_lt

theorem ordered_toRule {s : Sample} (hs : s.grammar.Ordered) : s.toRule.Ordered := by
  rw [toRule_eq, Rule.ordered_map]
  exact ⟨List.pairwise_pair.2 grammarKey_lt, by simp [hs]⟩

theorem depth_toRule (s : Sample) : s.toRule.depth = max s.grammar.depth 1 + 1 := by
  have htexts (inputs : List String) : Rule.depthOfItems (inputs.map Rule.text) = 0 := by
    induction inputs with
    | nil => rfl
    | cons input inputs ih => simp [Rule.depthOfItems, Rule.depth, ih]
  simp [toRule_eq, Rule.depth, Rule.depthOfEntries, htexts]

theorem mapM_asText? (inputs : List String) :
    inputs.mapM (Rule.asText? ∘ Rule.text) = some inputs := by
  induction inputs with
  | nil => rfl
  | cons input inputs ih => simp [Rule.asText?, ih]

theorem ofJson?_of_toRule {s : Sample} {text : String} (h : Rule.ofJson? text = .ok s.toRule) :
    Sample.ofJson? text = some s := by
  have hne : (inputsKey == grammarKey) = false := by decide
  simp [Sample.ofJson?, h, toRule_eq, Except.toOption, Rule.field?, Rule.asList?, List.lookup, hne,
    mapM_asText?]

theorem ofJson?_render {s : Sample} (hs : s.grammar.Ordered) :
    Sample.ofJson? s.render = if s.grammar.depth + 1 ≤ Json.maxOpen then some s else none := by
  have hread := Rule.ofJson?_render (ordered_toRule hs)
  rw [depth_toRule] at hread
  split
  · rw [if_pos (by simp [Json.maxOpen] at *; omega)] at hread
    exact ofJson?_of_toRule hread
  · rw [if_neg (by omega)] at hread
    rw [Sample.ofJson?, render, hread]
    rfl

end Sample

namespace Rule

/-- Printing and reading are inverse as far as the reader goes: a rule is read back just if no more
than 127 of its lists and maps are open at a time, and else it is refused; the same goes for a
grammar, and for a sample with one less in its grammar. -/
theorem printed_reads_back :
    (∀ r : Rule, r.Ordered →
      (ofJson? r.render = .ok r ↔ r.depth ≤ 127) ∧
      ((ofJson? r.render).isOk ↔ r.depth ≤ 127)) ∧
    (∀ entries : List (String × Rule), (Rule.map entries).Ordered → (Rule.map entries).depth ≤ 127 →
      grammarOfJson (Rule.map entries).render = .ok (.map entries)) ∧
    (∀ s : Sample, s.grammar.Ordered →
      (Sample.ofJson? s.render = some s ↔ s.grammar.depth ≤ 126)) := by
  refine ⟨fun r hr => ?_, fun entries => grammarOfJson_render, fun s hs => ?_⟩
  · rw [ofJson?_render hr, Json.maxOpen]
    split
    · rename_i hdepth
      exact ⟨iff_of_true rfl hdepth, iff_of_true rfl hdepth⟩
    · rename_i hdepth
      exact ⟨iff_of_false (by simp) hdepth, iff_of_false (by decide) hdepth⟩
  · rw [Sample.ofJson?_render hs, Json.maxOpen]
    split
    · exact iff_of_true rfl (by omega)
    · exact iff_of_false (by simp) (by omega)

/-- Marks, control characters and other letters, in keys and in texts. -/
theorem printed_reads_back_awkward :
    let r : Rule := .map [("a\x01\"", .list [.text "\"\n\\", .map []]), ("é", .text "\x1f/\t")]
    grammarOfJson r.render = .ok r ∧
      Sample.ofJson? (Sample.render ⟨r, ["\r", ""]⟩) = some ⟨r, ["\r", ""]⟩ := by
  intro r
  have hr : r.Ordered := by
    have hlt : "a\x01\"" < "é" := by decide
    exact .map (List.pairwise_pair.2 hlt) (by simp)
  exact ⟨printed_reads_back.2.1 _ hr (by decide), (printed_reads_back.2.2 _ hr).2 (by decide)⟩

end Rule

end PegGrammar
