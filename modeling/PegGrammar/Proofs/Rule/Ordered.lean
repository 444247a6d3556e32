import Mathlib
import PegGrammar.Json.Reader

/-!
# Ordered rules

The entries of a map are an ordered map of the program, written out: every key stands once, and the
keys increase. A key that is larger than all others goes to the end, so entries that come in their
order are put together again as they are.
-/

namespace PegGrammar.Rule

/-- Every map of a rule has its keys in strictly increasing order. -/
inductive Ordered : Rule → Prop
  | text (s : String) : Ordered (.text s)
  | list {items : List Rule} : (∀ item ∈ items, Ordered item) → Ordered (.list items)
  | map {entries : List (String × Rule)} : entries.Pairwise (·.1 < ·.1) →
      (∀ entry ∈ entries, Ordered entry.2) → Ordered (.map entries)

@[simp]
theorem ordered_text (s : String) : (Rule.text s).Ordered := .text s

@[simp]
theorem ordered_list {items : List Rule} :
    (Rule.list items).Ordered ↔ ∀ item ∈ items, item.Ordered :=
  ⟨fun h => by cases h with | list h => exact h, .list⟩

@[simp]
theorem ordered_map {entries : List (String × Rule)} :
    (Rule.map entries).Ordered ↔
      entries.Pairwise (·.1 < ·.1) ∧ ∀ entry ∈ entries, entry.2.Ordered :=
  ⟨fun h => by cases h with | map hkeys hvalues => exact ⟨hkeys, hvalues⟩, fun h => .map h.1 h.2⟩

/-! ### Putting an entry in -/

theorem mem_insertEntry {key : String} {value : Rule} {entry : String × Rule} :
    ∀ {entries : List (String × Rule)}, entry ∈ insertEntry key value entries →
      entry = (key, value) ∨ entry ∈ entries
  | [], h => by simpa [insertEntry] using h
  | (k, v) :: entries, h => by
    rw [insertEntry] at h
    split at h
    · simpa using h
    · rcases List.mem_cons.1 h with rfl | h
      · exact .inl rfl
      · exact .inr (List.mem_cons_of_mem _ h)
    · rcases List.mem_cons.1 h with rfl | h
      · exact .inr List.mem_cons_self
      · exact (mem_insertEntry h).imp_right (List.mem_cons_of_mem _)

theorem pairwise_insertEntry (key : String) (value : Rule) :
    ∀ {entries : List (String × Rule)}, entries.Pairwise (·.1 < ·.1) →
      (insertEntry key value entries).Pairwise (·.1 < ·.1)
  | [], _ => by simp [insertEntry]
  | (k, v) :: entries, h => by
    obtain ⟨hk, hentries⟩ := List.pairwise_cons.1 h
    rw [insertEntry]
    split
    · rename_i hlt
      rw [compare_lt_iff_lt] at hlt
      refine List.pairwise_cons.2 ⟨fun entry hentry => ?_, h⟩
      rcases List.mem_cons.1 hentry with rfl | hentry
      · exact hlt
      · exact lt_trans hlt (hk entry hentry)
    · rename_i heq
      rw [compare_eq_iff_eq] at heq
      subst heq
      exact List.pairwise_cons.2 ⟨hk, hentries⟩
    · rename_i hgt
      rw [compare_gt_iff_gt] at hgt
      refine List.pairwise_cons.2 ⟨fun entry hentry => ?_, pairwise_insertEntry key value hentries⟩
      rcases mem_insertEntry hentry with rfl | hentry
      · exact hgt
      · exact hk entry hentry

theorem Ordered.insertEntry {key : String} {value : Rule} {entries : List (String × Rule)}
    (h : (Rule.map entries).Ordered) (hvalue : value.Ordered) :
    (Rule.map (insertEntry key value entries)).Ordered := by
  rw [ordered_map] at h ⊢
  refine ⟨pairwise_insertEntry key value h.1, fun entry hentry => ?_⟩
  rcases mem_insertEntry hentry with rfl | hentry
  · exact hvalue
  · exact h.2 entry hentry

theorem insertEntry_of_forall_lt (key : String) (value : Rule) :
    ∀ {entries : List (String × Rule)}, (∀ entry ∈ entries, entry.1 < key) →
      insertEntry key value entries = entries ++ [(key, value)]
  | [], _ => rfl
  | (k, v) :: entries, h => by
    have hk : compare key k = .gt := compare_gt_iff_gt.2 (h _ List.mem_cons_self)
    rw [Rule.insertEntry, hk]
    simp [insertEntry_of_forall_lt key value (List.forall_mem_cons.1 h).2]

theorem lookup_of_forall_lt {key : String} {entries : List (String × Rule)}
    (h : ∀ entry ∈ entries, entry.1 < key) : entries.lookup key = none := by
  rw [List.lookup_eq_none_iff]
  intro entry hentry
  simpa using (h entry hentry).ne'

theorem ordered_grammar {pairs : List (String × Rule)} (h : ∀ pair ∈ pairs, pair.2.Ordered) :
    (grammar pairs).Ordered := by
  have hfold : ∀ entries, (Rule.map entries).Ordered → (Rule.map (pairs.foldl
      (fun entries pair => Rule.insertEntry pair.1 pair.2 entries) entries)).Ordered := by
    induction pairs with
    | nil => exact fun _ hentries => hentries
    | cons pair pairs ih =>
      obtain ⟨hpair, hpairs⟩ := List.forall_mem_cons.1 h
      exact fun entries hentries => ih hpairs _ (hentries.insertEntry hpair)
  exact hfold [] (by simp)

end PegGrammar.Rule

namespace PegGrammar.Json

/-! ### What is read -/

/-- What was read of an open list or map is ordered. -/
def Frame.Ordered : Frame → Prop
  | .list items => (Rule.list items).Ordered
  | .map entries _ => (Rule.map entries).Ordered

def Expected.Ordered : Expected → Prop
  | .end r => r.Ordered
  | _ => True

/-- All that a reader has read is ordered. -/
def AllOrdered (state : List Frame × Expected) : Prop :=
  (∀ frame ∈ state.1, frame.Ordered) ∧ state.2.Ordered

theorem finish_ordered {value : Rule} {frames : List Frame} {state : List Frame × Expected}
    (hvalue : value.Ordered) (hframes : ∀ frame ∈ frames, frame.Ordered)
    (h : finish value frames = .ok state) : AllOrdered state := by
  match frames with
  | [] =>
    cases h
    exact ⟨by simp, hvalue⟩
  | .list items :: frames =>
    cases h
    obtain ⟨hitems, hframes⟩ := List.forall_mem_cons.1 hframes
    refine ⟨List.forall_mem_cons.2 ⟨?_, hframes⟩, trivial⟩
    simpa [Frame.Ordered, hvalue] using hitems
  | .map entries key :: frames =>
    rw [finish] at h
    split at h
    · cases h
    · cases h
      obtain ⟨hentries, hframes⟩ := List.forall_mem_cons.1 hframes
      exact ⟨List.forall_mem_cons.2 ⟨Rule.Ordered.insertEntry hentries hvalue, hframes⟩, trivial⟩

theorem value_ordered {frames : List Frame} {lexeme : Lexeme} {state : List Frame × Expected}
    (hframes : ∀ frame ∈ frames, frame.Ordered) (h : value frames lexeme = .ok state) :
    AllOrdered state := by
  have hpush : ∀ frame expected, frame.Ordered → expected.Ordered →
      push frame expected frames = .ok state → AllOrdered state := by
    intro frame expected hframe hexpected h
    rw [push] at h
    split at h
    · cases h
      exact ⟨List.forall_mem_cons.2 ⟨hframe, hframes⟩, hexpected⟩
    · cases h
  rw [value.eq_def] at h
  split at h
  case h_1 | h_2 => exact finish_ordered (by simp) hframes h
  case h_4 => exact hpush (.list []) .itemOrEnd (by simp [Frame.Ordered]) trivial h
  case h_5 => exact hpush (.map [] "") .keyOrEnd (by simp [Frame.Ordered]) trivial h
  all_goals cases h

theorem step_ordered {state after : List Frame × Expected} {lexeme : Lexeme}
    (hstate : AllOrdered state) (h : step state.1 state.2 lexeme = .ok after) :
    AllOrdered after := by
  obtain ⟨frames, expected⟩ := state
  obtain ⟨hframes, -⟩ := hstate
  have hkey : ∀ entries frames, (Rule.map entries).Ordered → (∀ frame ∈ frames, frame.Ordered) →
      keyIn entries frames lexeme = .ok after → AllOrdered after := by
    intro entries frames hentries hframes h
    rw [keyIn.eq_def] at h
    split at h <;> cases h
    exact ⟨List.forall_mem_cons.2 ⟨hentries, hframes⟩, trivial⟩
  have hcons : ∀ {frame frames}, (∀ f ∈ frame :: frames, Frame.Ordered f) →
      frame.Ordered ∧ ∀ f ∈ frames, Frame.Ordered f := List.forall_mem_cons.1
  dsimp only at hframes h
  rw [step.eq_def] at h
  split at h
  -- a value, an item or the end of an empty list
  case h_1 | h_3 => exact value_ordered hframes h
  case h_2 => exact finish_ordered (by simp) (hcons hframes).2 h
  -- behind an item
  case h_4 =>
    cases h
    exact ⟨hframes, trivial⟩
  case h_5 =>
    obtain ⟨hitems, hframes⟩ := hcons hframes
    exact finish_ordered (by simpa [Frame.Ordered] using hitems) hframes h
  -- behind an entry
  case h_6 =>
    cases h
    exact ⟨hframes, trivial⟩
  case h_7 => exact finish_ordered (hcons hframes).1 (hcons hframes).2 h
  -- a key or the end of an empty map
  case h_8 => exact finish_ordered (by simp) (hcons hframes).2 h
  case h_9 | h_10 => exact hkey _ _ (hcons hframes).1 (hcons hframes).2 h
  -- the colon
  case h_11 =>
    cases h
    exact ⟨hframes, trivial⟩
  case h_12 => cases h

theorem readAll_ordered {r : Rule} : ∀ {lexemes : List Lexeme} {state : List Frame × Expected},
    AllOrdered state → readAll state.1 state.2 lexemes = .ok r → r.Ordered
  | [], (frames, expected), hstate, h => by
    cases expected <;> cases h
    exact hstate.2
  | lexeme :: lexemes, (frames, expected), hstate, h => by
    rw [readAll] at h
    split at h
    · rename_i hstep
      exact readAll_ordered (step_ordered hstate hstep) h
    · cases h

end PegGrammar.Json

namespace PegGrammar.Rule

/-- Every rule that a JSON text loads as is ordered. -/
theorem ordered_of_ofJson? {text : String} {r : Rule} (h : ofJson? text = .ok r) : r.Ordered :=
  have hstart : Json.AllOrdered ([], .value) := ⟨by simp, trivial⟩
  Json.readAll_ordered hstart h

end PegGrammar.Rule
