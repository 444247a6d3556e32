import PegGrammar.Proofs.Cursor.Nesting
import PegGrammar.Proofs.Program.Invariance
import PegGrammar.Proofs.Program.Replay

/-!
# Open blocks lie inside of each other

Only indentations open blocks, and each opens its block inside of the innermost, with an indentation that goes on
behind that of the innermost. Without scripts there is no other way, so the blocks that were ever opened in a text
lie inside of each other, at every moment of every run. Then no two open blocks look the same, and an indentation
tells which of them go on.
-/

namespace PegGrammar

namespace Program

open StateTransition

/-- The spaces and tabs at a cursor. -/
def indentRun (c : Cursor) : List Char := c.remaining.takeWhile isIndent

theorem isBlank_indentRun (c : Cursor) : Block.IsBlank (String.ofList (indentRun c)) := by
  intro d hd
  rw [String.toList_ofList] at hd
  simpa [isIndent] using List.mem_takeWhile_imp hd

theorem upholds_indentation : Upholds Cursor.Deepening indentation := by
  intro s hs
  rw [indentation]
  dsimp only
  split
  · exact hs.moveTo _
  split
  · rename_i hne hbegins
    have hinside : Block.Inside s.cursor.innermost (String.ofList (indentRun s.cursor)) := by
      refine ⟨?_, fun heq => hne heq.symm⟩
      rw [String.toList_ofList]
      exact List.isPrefixOf_iff_prefix.1 hbegins
    exact (hs.pushIndent (isBlank_indentRun s.cursor) hinside).moveTo _
  split
  · exact (hs.popIndents _).moveTo _
  · exact hs

theorem invariant_deepening {p : Program} (hscripts : p.Scriptless) : p.Invariant Cursor.Deepening where
  restored := fun origin hc => hc.restore origin
  literal := by
    intro text _ s hs
    rw [literalStep]
    split
    · exact hs
    · rename_i moved heat
      exact Cursor.Deepening.eat? (c := (s.reached s.position).cursor) hs heat
  regex := by
    intro pattern _ s hs
    rw [regexStep]
    split
    · exact hs
    · rename_i value moved hmatch
      obtain ⟨n, rfl⟩ := exists_advance_of_match? hmatch
      exact hs.moveTo _
  indentation := upholds_indentation
  script := fun hin => (hscripts.of_contains hin _ _ .root).elim

/-! ### What an indentation tells -/

/-- An indentation does not match just if it neither goes on behind the innermost nor is that of an open block. -/
theorem indentation_eq_none_iff (s : Running) :
    (indentation s).1 = none ↔
      ¬ s.cursor.innermost.toList <+: indentRun s.cursor ∧
        String.ofList (indentRun s.cursor) ∉ s.cursor.indents := by
  have hinnermost : s.cursor.innermost ∈ s.cursor.indents := by
    rw [← getLastD_indents, Cursor.indents, List.getLastD_cons]
    exact List.getLastD_mem_cons
  rw [indentation]
  dsimp only
  split
  · rename_i heq
    have hopen : String.ofList (indentRun s.cursor) ∈ s.cursor.indents := heq.symm ▸ hinnermost
    simp [hopen]
  split
  · rename_i hbegins
    have hfront : s.cursor.innermost.toList <+: indentRun s.cursor := List.isPrefixOf_iff_prefix.1 hbegins
    simp [hfront]
  split
  · rename_i closed hfound
    obtain ⟨hlt, hsame, -⟩ := List.findIdx?_eq_some_iff_getElem.1 hfound
    have hopen : String.ofList (indentRun s.cursor) ∈ s.cursor.indents :=
      List.mem_reverse.1 (of_decide_eq_true hsame ▸ List.getElem_mem hlt)
    simp [hopen]
  · rename_i hbegins _ hnone
    have hfalls : ¬ s.cursor.innermost.toList <+: indentRun s.cursor :=
      fun hfront => hbegins (List.isPrefixOf_iff_prefix.2 hfront)
    refine ⟨fun _ => ⟨fun hfront => (hfalls hfront).elim, fun hopen => ?_⟩, fun _ => rfl⟩
    have hdiffers := List.findIdx?_eq_none_iff.1 hnone _ (List.mem_reverse.2 hopen)
    exact of_decide_eq_false hdiffers rfl

/-- An indentation that closes blocks is that of the open block that becomes the innermost, and of no other. -/
theorem closes_unique {s next : Running} {tokens : Chain} (hnested : Block.Nested s.cursor.indents)
    (hmatch : indentation s = (some tokens, next))
    (hcloses : next.cursor.indents.length < s.cursor.indents.length) :
    ∃ i, next.cursor.indents = s.cursor.indents.take (i + 1) ∧
      ∀ j, s.cursor.indents[j]? = some (String.ofList (indentRun s.cursor)) ↔ j = i := by
  rw [indentation] at hmatch
  dsimp only at hmatch
  split at hmatch
  · cases hmatch
    exact (Nat.lt_irrefl _ hcloses).elim
  split at hmatch
  · cases hmatch
    change (s.cursor.pushIndent _).indents.length < _ at hcloses
    rw [Cursor.indents_pushIndent, List.length_append] at hcloses
    omega
  split at hmatch
  · rename_i closed hfound
    cases hmatch
    change s.cursor.indents.reverse.findIdx? (· = String.ofList (indentRun s.cursor)) = some closed at hfound
    obtain ⟨hlt, hsame, -⟩ := List.findIdx?_eq_some_iff_getElem.1 hfound
    have hopen : s.cursor.indents.reverse[closed] = String.ofList (indentRun s.cursor) := of_decide_eq_true hsame
    rw [List.getElem_reverse] at hopen
    rw [List.length_reverse] at hlt
    refine ⟨s.cursor.indents.length - 1 - closed, ?_, fun j => ?_⟩
    · change (s.cursor.popIndents closed).indents = _
      rw [Cursor.indents_popIndents]
      congr 1
      omega
    · have hi : s.cursor.indents.length - 1 - closed < s.cursor.indents.length := by omega
      rw [← hopen, ← List.getElem?_eq_getElem hi, eq_comm, List.getElem?_inj hi hnested.nodup, eq_comm]
  · cases hmatch

/-! ### Runs one after the other -/

/-- What is done to a cursor from outside. -/
inductive Use where
  | run (p : Program) (id : Nat)
  | setPosition (n : Nat)

/-- The cursor afterwards. -/
def Use.apply (c : Cursor) : Use → Cursor
  | .run p id => (p.runRule id c).cursor
  | .setPosition n => c.setPosition n

/-- No program that is run has scripts. -/
def Use.Scriptless : Use → Prop
  | .run p _ => p.Scriptless
  | .setPosition _ => True

theorem deepening_apply {c : Cursor} (hc : c.Deepening) {use : Use} (huse : use.Scriptless) :
    (use.apply c).Deepening := by
  cases use with
  | run p id => exact (invariant_deepening huse).runRule id hc
  | setPosition n => exact hc.moveTo _

theorem deepening_foldl {uses : List Use} (huses : ∀ use ∈ uses, use.Scriptless) {c : Cursor} (hc : c.Deepening) :
    (uses.foldl Use.apply c).Deepening := by
  induction uses generalizing c with
  | nil => exact hc
  | cons use uses ih =>
    obtain ⟨huse, hrest⟩ := List.forall_mem_cons.1 huses
    exact ih hrest (deepening_apply hc huse)

/-- At every moment of a run, after any number of runs in the same text and moves in between, the open blocks lie
inside of each other. An indentation that closes blocks is then that of exactly one open block, and one that does not
match neither goes on behind the innermost nor is that of an open block. -/
theorem open_blocks_nested (text : String) {uses : List Use} (huses : ∀ use ∈ uses, use.Scriptless) {p : Program}
    (hscripts : p.Scriptless) {id : Nat} {m : Moment}
    (hm : Reaches p.next? (.start id (uses.foldl Use.apply (.start text))) m) :
    Block.Nested m.state.cursor.indents ∧
      (∀ tokens next, indentation m.state = (some tokens, next) →
        next.cursor.indents.length < m.state.cursor.indents.length →
          ∃ i, next.cursor.indents = m.state.cursor.indents.take (i + 1) ∧
            ∀ j, m.state.cursor.indents[j]? = some (String.ofList (indentRun m.state.cursor)) ↔ j = i) ∧
      ((indentation m.state).1 = none ↔
        ¬ m.state.cursor.innermost.toList <+: indentRun m.state.cursor ∧
          String.ofList (indentRun m.state.cursor) ∉ m.state.cursor.indents) := by
  have hbefore := deepening_foldl huses (Cursor.deepening_start text)
  have hnested := ((invariant_deepening hscripts).reaches hm hbefore).nested
  exact ⟨hnested, fun _ _ => closes_unique hnested, indentation_eq_none_iff m.state⟩

/-- After two lines, of which the second opened a block, the first is read again: its indentation closes the block. -/
theorem open_blocks_nested_lines :
    ∃ uses : List Use, (∀ use ∈ uses, use.Scriptless) ∧ lines.Scriptless ∧
      ∃ m, Reaches lines.next? (.start 1 (uses.foldl Use.apply (.start "x; x;"))) m ∧
        m.state.cursor.indents = ["", " "] ∧ (indentation m.state).2.cursor.indents = [""] ∧
        Block.Nested m.state.cursor.indents ∧
        ∃ i, (indentation m.state).2.cursor.indents = m.state.cursor.indents.take (i + 1) ∧
          ∀ j, m.state.cursor.indents[j]? = some (String.ofList (indentRun m.state.cursor)) ↔ j = i := by
  have huses : ∀ use ∈ [Use.run lines 0, .setPosition 0], use.Scriptless := by
    simp [Use.Scriptless, scriptless_lines]
  have hreaches : ∀ c, ∃ m, Reaches lines.next? (.start 1 c) m ∧ m.state = .start c := fun c =>
    ⟨_, .tail (.single (show lines.next? (.start 1 c) = some _ from rfl)) (show lines.next? _ = some _ from rfl), rfl⟩
  obtain ⟨m, hm, hstate⟩ := hreaches ([Use.run lines 0, .setPosition 0].foldl Use.apply (.start "x; x;"))
  have hindents : m.state.cursor.indents = ["", " "] := by
    rw [hstate]
    cbv
  have hclosed : (indentation m.state).2.cursor.indents = [""] := by
    rw [hstate]
    cbv
  refine ⟨_, huses, scriptless_lines, m, hm, hindents, hclosed, ?_⟩
  obtain ⟨hnested, hcloses, -⟩ := open_blocks_nested "x; x;" huses scriptless_lines hm
  have hmatch : (indentation m.state).1.isSome = true := by
    rw [hstate]
    cbv
  obtain ⟨tokens, htokens⟩ := Option.isSome_iff_exists.1 hmatch
  refine ⟨hnested, hcloses tokens _ (Prod.ext htokens rfl) ?_⟩
  rw [hclosed, hindents]
  decide

end Program

end PegGrammar
