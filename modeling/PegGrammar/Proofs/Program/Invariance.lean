import PegGrammar.Proofs.Program.Chaining
import PegGrammar.Proofs.Program.Termination

/-!
# What holds of the cursor throughout a run

Only leaves move the cursor forward; whatever else a run does with it is to bring it back to a checkpoint. So what
leaves and checkpoints keep holds of the cursor at every moment, in lookaheads and in branches that are going to fail
as well as at the end. The parsers of a moment, those that wait included, are parsers of the program, so that nothing
has to be asked of leaves that it does not have.
-/

namespace PegGrammar

/-- The parsers that are yet to be run when it is their turn. -/
def Waiting.parsers : Waiting → List Parser
  | .items _ _ rest => rest
  | .branches _ rest => rest.map Prod.snd
  | .repeated body _ _ _ => [body]
  | .ahead _ | .notAhead _ | .optional _ | .reference | .rule _ _ => []

def Focus.parsers : Focus → List Parser
  | .run parser => [parser]
  | .choose _ branches => branches.map Prod.snd
  | .call _ | .back _ => []

def Moment.parsers (m : Moment) : List Parser := m.focus.parsers ++ m.waiting.flatMap Waiting.parsers

theorem Waiting.forall_parsers_cons {P : Parser → Prop} {w : Waiting} {waiting : List Waiting} :
    (∀ q ∈ (w :: waiting).flatMap Waiting.parsers, P q) ↔
      (∀ q ∈ w.parsers, P q) ∧ ∀ q ∈ waiting.flatMap Waiting.parsers, P q := by
  rw [List.flatMap_cons, List.forall_mem_append]

namespace Program

open StateTransition

variable {p : Program}

/-! ### Where the parsers of a moment come from -/

section

variable {waiting : List Waiting} {s : Running}

theorem contains_goOn {items : List Parser} (hitems : ∀ q ∈ items, p.Contains q)
    (hwaiting : ∀ q ∈ waiting.flatMap Waiting.parsers, p.Contains q) (origin : Checkpoint) (found : List Chain) :
    ∀ q ∈ (Moment.goOn origin found waiting s items).parsers, p.Contains q := by
  cases items with
  | nil => exact hwaiting
  | cons item items =>
    obtain ⟨hitem, hrest⟩ := List.forall_mem_cons.1 hitems
    exact List.forall_mem_cons.2 ⟨hitem, Waiting.forall_parsers_cons.2 ⟨hrest, hwaiting⟩⟩

theorem contains_enter {parser : Parser} (hparser : p.Contains parser)
    (hwaiting : ∀ q ∈ waiting.flatMap Waiting.parsers, p.Contains q) :
    ∀ q ∈ (p.enter waiting s parser).parsers, p.Contains q := by
  have hparts : ∀ part ∈ parser.parts, p.Contains part := fun _ hpart => hparser.part hpart
  cases parser with
  | literal | regex | eof | indent | script | rule => exact hwaiting
  | sequence items => exact contains_goOn hparts hwaiting _ _
  | choice branches => exact List.forall_mem_append.2 ⟨hparts, hwaiting⟩
  | repeated body =>
    have hbody := hparts body List.mem_cons_self
    exact List.forall_mem_cons.2 ⟨hbody, List.forall_mem_cons.2 ⟨hbody, hwaiting⟩⟩
  | ahead body | notAhead body | optional body =>
    exact List.forall_mem_cons.2 ⟨hparts body List.mem_cons_self, hwaiting⟩

theorem contains_leave {w : Waiting} (hw : ∀ q ∈ w.parsers, p.Contains q)
    (hwaiting : ∀ q ∈ waiting.flatMap Waiting.parsers, p.Contains q) (outcome : Option Chain) :
    ∀ q ∈ (p.leave outcome waiting s w).parsers, p.Contains q := by
  cases w with
  | items origin found rest =>
    cases outcome with
    | none => exact hwaiting
    | some tokens => exact contains_goOn hw hwaiting _ _
  | branches origin rest =>
    cases outcome with
    | none => exact List.forall_mem_append.2 ⟨hw, hwaiting⟩
    | some tokens => exact hwaiting
  | repeated body start last found =>
    cases outcome with
    | none => exact hwaiting
    | some tokens =>
      have hbody := hw body List.mem_cons_self
      rw [leave]
      split
      · exact List.forall_mem_cons.2 ⟨hbody, List.forall_mem_cons.2 ⟨hbody, hwaiting⟩⟩
      · exact hwaiting
  | optional => cases outcome <;> exact hwaiting
  | ahead | notAhead | reference | rule => exact hwaiting

end

theorem contains_of_next {m m' : Moment} (h : Next p m m') (hm : ∀ q ∈ m.parsers, p.Contains q) :
    ∀ q ∈ m'.parsers, p.Contains q := by
  cases h with
  | enter parser waiting s =>
    obtain ⟨hparser, hwaiting⟩ := List.forall_mem_cons.1 hm
    exact contains_enter hparser hwaiting
  | exhausted => exact hm
  | tried =>
    obtain ⟨hbranch, hrest⟩ := List.forall_mem_cons.1 hm
    exact List.forall_mem_cons.2 ⟨hbranch, hrest⟩
  | skipped => exact (List.forall_mem_cons.1 hm).2
  | @called id rule waiting s hrule =>
    rw [enterRule]
    split
    · exact hm
    · exact List.forall_mem_cons.2 ⟨⟨rule, List.mem_of_getElem? hrule, .root⟩, hm⟩
  | left outcome w waiting s =>
    obtain ⟨hw, hwaiting⟩ := Waiting.forall_parsers_cons.1 hm
    exact contains_leave hw hwaiting outcome

theorem contains_of_reaches {id : Nat} {cursor : Cursor} {m : Moment}
    (h : Reaches p.next? (.start id cursor) m) : ∀ q ∈ m.parsers, p.Contains q := by
  induction h with
  | refl => exact List.forall_mem_nil _
  | tail _ hnext ih => exact contains_of_next (next?_eq_some_iff.1 hnext) ih

/-! ### Invariants -/

/-- A step after which something holds of the cursor if it did before. -/
def Upholds (I : Cursor → Prop) (step : Step) : Prop := ∀ s, I s.cursor → I (step s).2.cursor

/-- What the leaves of a program keep, and what does not change when the cursor is brought back. -/
structure Invariant (p : Program) (I : Cursor → Prop) : Prop where
  restored {c : Cursor} (origin : Checkpoint) : I c → I (c.restore origin)
  literal {text : String} : p.Contains (.literal text) → Upholds I (literalStep text)
  regex {pattern : Pattern} : p.Contains (.regex pattern) → Upholds I (regexStep pattern)
  indentation : Upholds I indentation
  script {source : String} {handle : Nat} :
    p.Contains (.script source handle) → Upholds I (p.scriptStep source handle)

namespace Invariant

variable {I : Cursor → Prop} {waiting : List Waiting} {s : Running}

theorem chains (h : p.Invariant I) : p.Chains (fun s _ next => I s.cursor → I next.cursor) where
  refl := fun _ hs => hs
  trans := fun hmid hnext hs => hnext (hmid hs)
  restored := fun hnext hs => h.restored _ (hnext hs)
  silent := fun hcursor _ hs => hcursor ▸ hs
  tooDeep := fun rule s hs => (cursor_tooDeep p rule s).symm ▸ hs
  wrapped := fun _ hnext => hnext
  literal := h.literal
  regex := h.regex
  eof := fun _ hs => hs
  indentation := h.indentation
  script := h.script

/-- An invariant holds after a run, whether or not it matches. -/
theorem runRule (h : p.Invariant I) (id : Nat) {cursor : Cursor} (hcursor : I cursor) :
    I (p.runRule id cursor).cursor :=
  h.chains.callRule p.depthLimit id (.start cursor) hcursor

theorem enter (h : p.Invariant I) {parser : Parser} (hparser : p.Contains parser) (hs : I s.cursor) :
    I (p.enter waiting s parser).state.cursor := by
  cases parser with
  | literal text => exact h.literal hparser s hs
  | regex pattern => exact h.regex hparser s hs
  | indent => exact h.indentation s hs
  | script source handle => exact h.script hparser s hs
  | sequence items => cases items <;> exact hs
  | eof | choice | repeated | ahead | notAhead | optional | rule => exact hs

theorem leave (h : p.Invariant I) (outcome : Option Chain) (w : Waiting) (hs : I s.cursor) :
    I (p.leave outcome waiting s w).state.cursor := by
  cases w with
  | items origin found rest =>
    cases outcome with
    | none => exact h.restored origin hs
    | some tokens => cases rest <;> exact hs
  | branches origin | optional origin =>
    cases outcome with
    | none => exact h.restored origin hs
    | some tokens => exact hs
  | repeated body start last found =>
    cases outcome with
    | none => exact hs
    | some tokens =>
      rw [Program.leave]
      split <;> exact hs
  | ahead origin | notAhead origin => exact h.restored origin hs
  | reference => exact hs
  | rule rule start =>
    rw [Program.leave, cursor_traced]
    exact hs

theorem next (h : p.Invariant I) {m m' : Moment} (hnext : Next p m m') (hm : ∀ q ∈ m.parsers, p.Contains q)
    (hs : I m.state.cursor) : I m'.state.cursor := by
  cases hnext with
  | enter parser => exact h.enter (hm parser List.mem_cons_self) hs
  | exhausted => exact hs
  | @tried _ first _ _ _ s _ htry | @skipped _ first _ _ _ s _ htry =>
    have hcursor := cursor_worthTrying p first s
    rw [htry] at hcursor
    exact hcursor ▸ hs
  | @called id rule waiting s hrule =>
    rw [enterRule]
    split
    · rw [cursor_tooDeep]
      exact hs
    · rw [cursor_traced]
      exact hs
  | left outcome w => exact h.leave outcome w hs

/-- An invariant holds at every moment of a run. -/
theorem reaches (h : p.Invariant I) {id : Nat} {cursor : Cursor} {m : Moment}
    (hm : Reaches p.next? (.start id cursor) m) (hcursor : I cursor) : I m.state.cursor := by
  induction hm with
  | refl => exact hcursor
  | tail hm hnext ih => exact h.next (next?_eq_some_iff.1 hnext) (contains_of_reaches hm) ih

end Invariant

end Program

end PegGrammar
