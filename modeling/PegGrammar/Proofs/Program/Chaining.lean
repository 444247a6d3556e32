import PegGrammar.Proofs.Parser.Parts
import PegGrammar.Proofs.Program.Progress
import PegGrammar.Proofs.Program.Restoration

/-!
# What tokens say of a run

A match takes a run from one state to another and gives tokens, and often the tokens say something about the two
states. Such a relation holds of every match if it holds of what the leaves do: chains are only put one behind
the other, coming back drops them, and a rule may put a token around them. What else a run does, it does without
moving the cursor.
-/

namespace PegGrammar

namespace Program

/-- A parser is a node of the body of some rule. -/
def Contains (p : Program) (q : Parser) : Prop := ∃ rule ∈ p.rules, q.Within rule.body

theorem Contains.part {p : Program} {q part : Parser} (h : p.Contains q) (hpart : part ∈ q.parts) :
    p.Contains part := by
  obtain ⟨rule, hrule, hwithin⟩ := h
  exact ⟨rule, hrule, .trans (.part hpart .root) hwithin⟩

/-- A relation holds of all that a step does: between where it begins, what it finds and where it ends. A step
that does not match finds nothing. -/
def Along (R : Running → Chain → Running → Prop) (step : Step) : Prop :=
  ∀ s, R s ((step s).1.getD []) (step s).2

/-- A relation between two states of a run and the tokens found in between that a program keeps. -/
structure Chains (p : Program) (R : Running → Chain → Running → Prop) : Prop where
  refl (s : Running) : R s [] s
  trans {s mid next : Running} {tokens more : Chain} :
    R s tokens mid → R mid more next → R s (tokens ++ more) next
  restored {s next : Running} {tokens : Chain} :
    R s tokens next → R s [] (next.restore s.cursor.checkpoint)
  /-- Nothing happens but that something is recorded or remembered. -/
  silent {s next : Running} : next.cursor = s.cursor → next.report = s.report → R s [] next
  tooDeep (rule : CompiledRule) (s : Running) : R s [] (p.tooDeep rule s)
  wrapped {rule : CompiledRule} {s next : Running} {tokens : Chain} :
    rule ∈ p.rules → R s tokens next → R s (p.wrap rule s.position tokens next.cursor) next
  literal {text : String} : p.Contains (.literal text) → Along R (literalStep text)
  regex {pattern : Pattern} : p.Contains (.regex pattern) → Along R (regexStep pattern)
  eof : Along R eofStep
  indentation : Along R indentation
  script {source : String} {handle : Nat} :
    p.Contains (.script source handle) → Along R (p.scriptStep source handle)

namespace Chains

variable {p : Program} {R : Running → Chain → Running → Prop}

/-! ### Trees -/

theorem repeatFrom (h : p.Chains R) {step : Step} (hstep : Along R step) {origin : Running}
    (fuel last : Nat) (found : List Chain) (s : Running) (hs : R origin found.reverse.flatten s) :
    R origin ((repeatFrom step fuel last found s).1.getD []) (repeatFrom step fuel last found s).2 := by
  induction fuel generalizing last found s with
  | zero => exact hs
  | succ fuel ih =>
    have hall := h.trans hs (hstep s)
    rw [Program.repeatFrom]
    dsimp only
    split
    · rcases hresult : step s with ⟨_ | tokens, next⟩
      · rw [hresult] at hall
        simpa using hall
      · rw [hresult] at hall
        exact ih _ _ next (by simpa using hall)
    · exact hs

theorem repeatStep (h : p.Chains R) {step : Step} (hstep : Along R step) : Along R (repeatStep step) := by
  intro s
  have hs := hstep s
  rw [Program.repeatStep]
  generalize step s = result at hs ⊢
  rcases result with ⟨_ | tokens, next⟩
  · exact hs
  · exact h.repeatFrom hstep _ _ [tokens] next (by simpa using hs)

theorem worthTrying (h : p.Chains R) (first : Option BitSet) (s : Running) :
    R s [] (p.worthTrying first s).2 :=
  h.silent (cursor_worthTrying p first s) (report_worthTrying p first s)

section

variable {call : Nat → Step}

mutual

/-- The relation holds of every parser if it does of the rules that are called. -/
theorem node (h : p.Chains R) (hcall : ∀ id, Along R (call id)) :
    (parser : Parser) → p.Contains parser → Along R (node p call parser)
  | .literal _, hin => h.literal hin
  | .regex _, hin => h.regex hin
  | .eof, _ => h.eof
  | .indent, _ => h.indentation
  | .sequence items, hin => fun s => by
    have hitems : ∀ item ∈ items, p.Contains item := fun _ hitem => hin.part hitem
    rw [Program.node]
    exact h.runItems hcall items hitems [] s (h.refl s)
  | .repeated body, hin => by
    rw [Program.node]
    exact h.repeatStep (h.node hcall body (hin.part List.mem_cons_self))
  | .choice branches, hin => fun s => by
    have hbranches : ∀ branch ∈ branches, p.Contains branch.2 :=
      fun _ hbranch => hin.part (List.mem_map_of_mem hbranch)
    rw [Program.node]
    exact h.runBranches hcall branches hbranches s (h.refl s)
  | .ahead body, hin => fun s => by
    have hbody := h.node hcall body (hin.part List.mem_cons_self) s
    rw [Program.node]
    dsimp only
    generalize Program.node p call body s = result at hbody ⊢
    rcases result with ⟨_ | tokens, next⟩
    all_goals exact h.restored hbody
  | .notAhead body, hin => fun s => by
    have hbody := h.node hcall body (hin.part List.mem_cons_self) s
    rw [Program.node]
    dsimp only
    generalize Program.node p call body s = result at hbody ⊢
    rcases result with ⟨_ | tokens, next⟩
    all_goals exact h.restored hbody
  | .optional body, hin => fun s => by
    have hbody := h.node hcall body (hin.part List.mem_cons_self) s
    rw [Program.node]
    dsimp only
    generalize Program.node p call body s = result at hbody ⊢
    rcases result with ⟨_ | tokens, next⟩
    · exact h.restored hbody
    · exact hbody
  | .script _ _, hin => h.script hin
  | .rule id, _ => hcall id

theorem runItems (h : p.Chains R) (hcall : ∀ id, Along R (call id)) {origin : Running} :
    (items : List Parser) → (∀ item ∈ items, p.Contains item) → (found : List Chain) →
      (s : Running) → R origin found.reverse.flatten s →
      R origin ((runItems p call origin.cursor.checkpoint found items s).1.getD [])
        (runItems p call origin.cursor.checkpoint found items s).2
  | [], _, _, _, hfound => by
    rw [Program.runItems]
    exact hfound
  | item :: items, hitems, found, s, hfound => by
    obtain ⟨hitem, hrest⟩ := List.forall_mem_cons.1 hitems
    have hnext := h.trans hfound (h.node hcall item hitem s)
    rw [Program.runItems]
    dsimp only
    generalize Program.node p call item s = result at hnext ⊢
    rcases result with ⟨_ | tokens, next⟩
    · exact h.restored hnext
    · exact h.runItems hcall items hrest _ next (by simpa using hnext)

theorem runBranches (h : p.Chains R) (hcall : ∀ id, Along R (call id)) {origin : Running} :
    (branches : List (Option BitSet × Parser)) → (∀ branch ∈ branches, p.Contains branch.2) →
      (s : Running) → R origin [] s →
      R origin ((runBranches p call origin.cursor.checkpoint branches s).1.getD [])
        (runBranches p call origin.cursor.checkpoint branches s).2
  | [], _, _, hs => by
    rw [Program.runBranches]
    exact hs
  | (first, branch) :: branches, hbranches, s, hs => by
    obtain ⟨hbranch, hrest⟩ := List.forall_mem_cons.1 hbranches
    have htried := h.trans hs (h.worthTrying first s)
    rw [Program.runBranches]
    dsimp only
    generalize p.worthTrying first s = worth at htried ⊢
    rcases worth with ⟨_ | _, tried⟩
    · exact h.runBranches hcall branches hrest tried htried
    · have hnext := h.trans htried (h.node hcall branch hbranch tried)
      dsimp only at hnext ⊢
      generalize Program.node p call branch tried = result at hnext ⊢
      rcases result with ⟨_ | tokens, next⟩
      · exact h.runBranches hcall branches hrest _ (h.restored hnext)
      · exact hnext

end

end

/-! ### Rules -/

theorem traced (h : p.Chains R) {s next : Running} {tokens : Chain} (hs : R s tokens next) (depth : Nat)
    (message : String) : R s tokens (p.traced depth message next) := by
  have hrecorded := h.silent (cursor_traced p depth message next) (report_traced p depth message next)
  simpa using h.trans hs hrecorded

/-- A relation that the leaves and the exits of rules keep holds of all that a rule does. -/
theorem callRule (h : p.Chains R) (room id : Nat) : Along R (p.callRule room id) := by
  induction room generalizing id with
  | zero =>
    intro s
    rw [Program.callRule]
    split
    · exact h.refl s
    · exact h.tooDeep _ s
  | succ room ih =>
    intro s
    rw [Program.callRule]
    split
    · exact h.refl s
    · rename_i rule hrule
      have hmem := List.mem_of_getElem? hrule
      dsimp only
      have hentered := h.traced (h.refl s) (p.depthLimit - (room + 1))
        ("> " ++ rule.name ++ " @ " ++ toString s.position)
      have hbody := h.trans hentered (h.node ih rule.body ⟨rule, hmem, .root⟩ _)
      generalize Program.node p (p.callRule room) rule.body _ = result at hbody ⊢
      rcases result with ⟨_ | tokens, next⟩
      · exact h.traced hbody _ _
      · exact h.traced (h.wrapped hmem hbody) _ _

end Chains

end Program

end PegGrammar
