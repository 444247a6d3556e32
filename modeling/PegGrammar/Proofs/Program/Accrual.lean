import PegGrammar.Program.Run

/-!
# What accrues in a run

Coming back to a checkpoint takes back where the cursor was and which blocks were open, and nothing else. What was
recorded stays recorded and what was reported stays reported, in lookaheads and in alternatives that fail as well. So
a relation between an earlier and a later state that is about records and the report only, holds of a whole parser
if it holds of the notes that leaves take and of the rules that are called.
-/

namespace PegGrammar.Program

@[simp] theorem report_worthTrying (p : Program) (first : Option BitSet) (s : Running) :
    (p.worthTrying first s).2.report = s.report := by
  cases first with
  | none => rfl
  | some first =>
    rw [worthTrying, mayStart]
    split
    · split <;> rfl
    · rfl

theorem log_worthTrying (p : Program) (first : Option BitSet) (s : Running) :
    (p.worthTrying first s).2.log = s.log := by
  cases first with
  | none => rfl
  | some first =>
    rw [worthTrying, mayStart]
    split
    · split <;> rfl
    · rfl

/-- A relation between two states of a run that does not depend on where the cursors are, and holds if all that happens
in between is that the run gets further and takes a note. -/
structure Accrual (R : Running → Running → Prop) : Prop where
  trans {s mid next : Running} : R s mid → R mid next → R s next
  /-- What happens leaves the report and the records alone. -/
  silent {s next : Running} : next.report = s.report → next.log = s.log → R s next
  reached (s : Running) (n : Nat) : R s (s.reached n)
  noted (s : Running) (message : String) : R s (s.record .debug message)

/-- A relation holds between the states before and after a step, wherever it begins. -/
def Accrues (R : Running → Running → Prop) (step : Step) : Prop := ∀ s, R s (step s).2

namespace Accrual

variable {R : Running → Running → Prop}

theorem refl (h : Accrual R) (s : Running) : R s s := h.silent rfl rfl

/-! ### Leaves -/

theorem matched (h : Accrual R) (s : Running) (c : Cursor) (start stop : Nat) :
    R s (((s.reached start).movedTo c).reached stop) := by
  have hmoved : R (s.reached start) ((s.reached start).movedTo c) := h.silent rfl rfl
  exact h.trans (h.reached s start) (h.trans hmoved (h.reached _ stop))

theorem literalStep (h : Accrual R) (text : String) : Accrues R (literalStep text) := by
  intro s
  rw [Program.literalStep]
  split
  · exact h.reached s _
  · exact h.matched s _ _ _

theorem regexStep (h : Accrual R) (pattern : Pattern) : Accrues R (regexStep pattern) := by
  intro s
  rw [Program.regexStep]
  split
  · exact h.reached s _
  · exact h.matched s _ _ _

theorem eofStep (h : Accrual R) : Accrues R eofStep := fun s => h.reached s _

theorem indentation (h : Accrual R) : Accrues R indentation := by
  intro s
  rw [Program.indentation]
  dsimp only
  split
  · exact h.matched s _ _ _
  split
  · exact h.matched s _ _ _
  split
  · exact h.matched s _ _ _
  · exact h.trans (h.reached s _) (h.noted _ _)

theorem scriptStep (h : Accrual R) (p : Program) (source : String) (handle : Nat) :
    Accrues R (p.scriptStep source handle) := by
  intro s
  rw [Program.scriptStep]
  dsimp only
  split
  · rename_i tokens moved _
    have hmoved : R s (s.movedTo moved) := h.silent rfl rfl
    exact h.trans hmoved (h.reached _ _)
  · exact h.trans (h.noted s _) (h.silent rfl rfl)

/-! ### Trees -/

theorem restored (h : Accrual R) {s next : Running} (hnext : R s next) (origin : Checkpoint) :
    R s (next.restore origin) := h.trans hnext (h.silent rfl rfl)

theorem worthTrying (h : Accrual R) (p : Program) (first : Option BitSet) (s : Running) :
    R s (p.worthTrying first s).2 :=
  h.silent (report_worthTrying p first s) (log_worthTrying p first s)

theorem repeatFrom (h : Accrual R) {step : Step} (hstep : Accrues R step) (fuel last : Nat)
    (found : List Chain) : Accrues R (repeatFrom step fuel last found) := by
  induction fuel generalizing last found with
  | zero => exact h.refl
  | succ fuel ih =>
    intro s
    have hs := hstep s
    rw [Program.repeatFrom]
    dsimp only
    split
    · split
      · rename_i tokens next hmatch
        rw [hmatch] at hs
        exact h.trans hs (ih _ _ next)
      · rename_i next hfail
        rw [hfail] at hs
        exact hs
    · exact h.refl s

theorem repeatStep (h : Accrual R) {step : Step} (hstep : Accrues R step) : Accrues R (repeatStep step) := by
  intro s
  have hs := hstep s
  rw [Program.repeatStep]
  split
  · rename_i next hfail
    rw [hfail] at hs
    exact hs
  · rename_i tokens next hmatch
    rw [hmatch] at hs
    exact h.trans hs (h.repeatFrom hstep _ _ _ next)

section

variable {p : Program} {call : Nat → Step}

mutual

/-- The relation holds of a parser if it does of the rules that are called. -/
theorem node (h : Accrual R) (hcall : ∀ id, Accrues R (call id)) :
    (parser : Parser) → Accrues R (node p call parser)
  | .literal text => h.literalStep text
  | .regex pattern => h.regexStep pattern
  | .eof => h.eofStep
  | .indent => h.indentation
  | .sequence items => fun s => by
    rw [Program.node]
    exact h.runItems hcall _ items [] s
  | .repeated body => by
    rw [Program.node]
    exact h.repeatStep (h.node hcall body)
  | .choice branches => fun s => by
    rw [Program.node]
    exact h.runBranches hcall _ branches s
  | .ahead body => fun s => by
    rw [Program.node]
    exact h.restored (h.node hcall body s) _
  | .notAhead body => fun s => by
    rw [Program.node]
    exact h.restored (h.node hcall body s) _
  | .optional body => fun s => by
    have hbody := h.node hcall body s
    rw [Program.node]
    dsimp only
    split
    all_goals
      rename_i hresult
      rw [hresult] at hbody
    · exact hbody
    · exact h.restored hbody _
  | .script source handle => h.scriptStep p source handle
  | .rule id => hcall id

theorem runItems (h : Accrual R) (hcall : ∀ id, Accrues R (call id)) (origin : Checkpoint) :
    (items : List Parser) → (found : List Chain) → Accrues R (runItems p call origin found items)
  | [], _ => fun s => by
    rw [Program.runItems]
    exact h.refl s
  | item :: items, found => fun s => by
    have hitem := h.node hcall item s
    rw [Program.runItems]
    dsimp only
    split
    · rename_i tokens next hmatch
      rw [hmatch] at hitem
      exact h.trans hitem (h.runItems hcall origin items _ next)
    · rename_i next hfail
      rw [hfail] at hitem
      exact h.restored hitem origin

theorem runBranches (h : Accrual R) (hcall : ∀ id, Accrues R (call id)) (origin : Checkpoint) :
    (branches : List (Option BitSet × Parser)) → Accrues R (runBranches p call origin branches)
  | [] => fun s => by
    rw [Program.runBranches]
    exact h.refl s
  | (first, branch) :: branches => fun s => by
    have hworth := h.worthTrying p first s
    rw [Program.runBranches]
    dsimp only
    split
    · rename_i skipped hskip
      rw [hskip] at hworth
      exact h.trans hworth (h.runBranches hcall origin branches skipped)
    · rename_i tried htry
      rw [htry] at hworth
      have hbranch := h.node hcall branch tried
      split
      · rename_i tokens next hmatch
        rw [hmatch] at hbranch
        exact h.trans hworth hbranch
      · rename_i next hfail
        rw [hfail] at hbranch
        have hback := h.restored hbranch origin
        exact h.trans hworth (h.trans hback (h.runBranches hcall origin branches _))

end

end

end Accrual

end PegGrammar.Program
