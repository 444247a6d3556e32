import PegGrammar.Proofs.Program.Accrual

/-!
# What a report says stays said

A report only ever grows: how far a run got, and that a rule failed because of the limit, is not taken back,
whatever becomes of the step that found it out. Coming back to a checkpoint is about the cursor only.
-/

namespace PegGrammar

/-- A report that says at least as much. -/
structure Report.Le (a b : Report) : Prop where
  furthest : a.furthest ≤ b.furthest
  depthLimitReached : a.depthLimitReached = true → b.depthLimitReached = true

theorem Report.Le.refl (a : Report) : a.Le a := ⟨Nat.le_refl _, id⟩

theorem Report.Le.trans {a b c : Report} (hab : a.Le b) (hbc : b.Le c) : a.Le c :=
  ⟨Nat.le_trans hab.furthest hbc.furthest, hbc.depthLimitReached ∘ hab.depthLimitReached⟩

/-- A report that says no less than one without the flag is the same if it is of a run that got as far. -/
theorem Report.Le.eq_of_furthest {a b : Report} (h : a.Le b) (hfurthest : a.furthest = b.furthest)
    (hflag : b.depthLimitReached = false) : a = b := by
  have hnone : a.depthLimitReached = false :=
    Bool.eq_false_iff.2 fun hreached => Bool.eq_false_iff.1 hflag (h.depthLimitReached hreached)
  obtain ⟨furthest, flag⟩ := a
  obtain ⟨furthest', flag'⟩ := b
  cases hfurthest
  cases hflag
  cases hnone
  rfl

theorem Running.report_le_reached (s : Running) (n : Nat) : s.report.Le (s.reached n).report :=
  ⟨Nat.le_max_left _ _, id⟩

namespace Program

/-- A step after which the report says at least as much as before. -/
def Reports (step : Step) : Prop := ∀ s : Running, s.report.Le (step s).2.report

theorem accrual_report : Accrual fun s next => s.report.Le next.report where
  trans := Report.Le.trans
  silent hreport _ := hreport ▸ .refl _
  reached := Running.report_le_reached
  noted s _ := .refl s.report

/-! ### Rules -/

@[simp] theorem report_traced (p : Program) (depth : Nat) (message : String) (s : Running) :
    (p.traced depth message s).report = s.report := by
  rw [traced]
  split <;> rfl

theorem report_le_tooDeep (p : Program) (rule : CompiledRule) (s : Running) :
    s.report.Le (p.tooDeep rule s).report := by
  rw [tooDeep]
  dsimp only
  split <;> exact ⟨Nat.le_refl _, fun _ => rfl⟩

theorem furthest_tooDeep (p : Program) (rule : CompiledRule) (s : Running) :
    (p.tooDeep rule s).report.furthest = s.report.furthest := by
  rw [tooDeep]
  dsimp only
  split <;> rfl

theorem reports_callRule (p : Program) (room id : Nat) : Reports (p.callRule room id) := by
  induction room generalizing id with
  | zero =>
    intro s
    rw [callRule]
    split
    · exact .refl s.report
    · exact p.report_le_tooDeep _ s
  | succ room ih =>
    intro s
    rw [callRule]
    split
    · exact .refl s.report
    · rename_i rule _
      dsimp only
      have hbody := accrual_report.node (p := p) ih rule.body
        (p.traced (p.depthLimit - (room + 1)) ("> " ++ rule.name ++ " @ " ++ toString s.position) s)
      rw [report_traced] at hbody
      rw [report_traced]
      exact hbody

end Program

end PegGrammar
