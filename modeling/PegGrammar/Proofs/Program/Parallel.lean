import PegGrammar.Proofs.Compile.Pruning
import PegGrammar.Proofs.Cursor.Alike
import PegGrammar.Proofs.Program.Progress
import PegGrammar.Proofs.Program.Restoration

/-!
# Two runs side by side

A program and its bare version are run side by side, and a relation holds between their states. Both do the
same except at an alternative that the program skips: there only the bare run goes on, and has to fail and come
back. If the leaves keep a relation, and coming back does, and every alternative that is skipped, then all runs
keep it, with the same outcomes.

Two states are related when the cursors look alike, not when they are equal: blocks may have been opened in
between in one run and not in the other. So coming back is from two later states to two earlier ones, each with
its own checkpoint.
-/

namespace PegGrammar.Program

/-- The same outcome in two runs, which are related afterwards. -/
structure Reflects (R : Running → Running → Prop) (result other : Option Chain × Running) : Prop where
  outcome : result.1 = other.1
  after : R result.2 other.2

theorem Reflects.matched_or_failed {R : Running → Running → Prop}
    {result other : Option Chain × Running} (h : Reflects R result other) :
    (∃ tokens next next', result = (some tokens, next) ∧ other = (some tokens, next') ∧ R next next') ∨
      ∃ next next', result = (none, next) ∧ other = (none, next') ∧ R next next' := by
  obtain ⟨outcome, next⟩ := result
  obtain ⟨outcome', next'⟩ := other
  obtain ⟨houtcome, hafter⟩ := h
  cases (houtcome : outcome = outcome')
  cases outcome with
  | some tokens => exact .inl ⟨tokens, next, next', rfl, rfl, hafter⟩
  | none => exact .inr ⟨next, next', rfl, rfl, hafter⟩

/-- Two steps that do the same wherever two runs are related. -/
def Simulates (R : Running → Running → Prop) (step other : Step) : Prop :=
  ∀ s t, R s t → Reflects R (step s) (other t)

/-- A relation between the states of a program and of its bare version that everything keeps but skipping. -/
structure Parallels (p : Program) (R : Running → Running → Prop) : Prop where
  moves : p.scripts.OnlyMoves
  alike {s t : Running} : R s t → s.cursor.Alike t.cursor
  /-- Both runs come back to where they were related. -/
  restored {s t next next' : Running} : R s t → R next next' → s.cursor.Extends next.cursor →
    t.cursor.Extends next'.cursor → t.report.Le next'.report →
      R (next.restore s.cursor.checkpoint) (next'.restore t.cursor.checkpoint)
  /-- The program looks whether an alternative is worth trying; the bare one has no need to. -/
  worthTrying (first : Option BitSet) {s t : Running} : R s t → R (p.worthTrying first s).2 t
  literal (text : String) : Simulates R (literalStep text) (literalStep text)
  regex (pattern : Pattern) : Simulates R (regexStep pattern) (regexStep pattern)
  eof : Simulates R eofStep eofStep
  indentation : Simulates R indentation indentation
  script (source : String) (handle : Nat) :
    Simulates R (p.scriptStep source handle) (p.bare.scriptStep source handle)
  traced {s t : Running} (depth : Nat) (message : String) :
    R s t → R (p.traced depth message s) (p.bare.traced depth message t)
  tooDeep {s t : Running} (rule : CompiledRule) :
    R s t → R (p.tooDeep rule s) (p.bare.tooDeep rule.bare t)

/-- Where an alternative is skipped, the bare run fails at it, and is related again when it came back. -/
def SkippedAlike (p : Program) (R : Running → Running → Prop) (plain : Nat → Step)
    (branch : Option BitSet × Parser) : Prop :=
  ∀ s t tried, R s t → p.worthTrying branch.1 s = (false, tried) →
    ∃ next, node p.bare plain branch.2.bare t = (none, next) ∧
      R tried (next.restore t.cursor.checkpoint)

/-- Every alternative in a parser can be skipped. -/
def SkipsAlike (p : Program) (R : Running → Running → Prop) (plain : Nat → Step) (q : Parser) : Prop :=
  ∀ branches, Parser.Within (.choice branches) q → ∀ branch ∈ branches, p.SkippedAlike R plain branch

/-- What is asked of the rules that are called: with pruning they do what they do without; either way they
leave no trace when they fail, and without, what the report says stays said. -/
structure CallsAlike (R : Running → Running → Prop) (call plain : Nat → Step) : Prop where
  simulates : ∀ id, Simulates R (call id) (plain id)
  backtracks : ∀ id, Backtracks (call id)
  backtracks_plain : ∀ id, Backtracks (plain id)
  reports_plain : ∀ id, Reports (plain id)

variable {p : Program} {R : Running → Running → Prop} {call plain : Nat → Step}

theorem CallsAlike.reported_plain (h : CallsAlike R call plain) (parser : Parser) (t : Running) :
    t.report.Le (node p.bare plain parser t).2.report :=
  accrual_report.node h.reports_plain parser t

theorem SkipsAlike.part {q part : Parser} (h : p.SkipsAlike R plain q) (hpart : part ∈ q.parts) :
    p.SkipsAlike R plain part :=
  fun branches hwithin => h branches (.part hpart hwithin)

theorem wrap_bare (rule : CompiledRule) (start : Nat) (tokens : Chain) {c d : Cursor}
    (h : c.Alike d) : p.wrap rule start tokens c = p.bare.wrap rule.bare start tokens d := by
  have hown : p.bare.hasOwnToken rule.bare = p.hasOwnToken rule := rfl
  have hname : rule.bare.name = rule.name := rfl
  rw [wrap, wrap, hown, hname, Cursor.textBetween, Cursor.textBetween, h.place, h.position]

namespace Parallels

theorem position (h : p.Parallels R) {s t : Running} (hst : R s t) : s.position = t.position :=
  (h.alike hst).position

/-! ### Repetitions -/

theorem repeatFrom (h : p.Parallels R) {step other : Step} (hstep : Simulates R step other)
    (fuel last : Nat) (found : List Chain) :
    Simulates R (repeatFrom step fuel last found) (repeatFrom other fuel last found) := by
  induction fuel generalizing last found with
  | zero => exact fun s t hst => ⟨rfl, hst⟩
  | succ fuel ih =>
    intro s t hst
    rw [Program.repeatFrom, Program.repeatFrom]
    dsimp only
    rw [h.position hst]
    split
    · rcases (hstep s t hst).matched_or_failed with
        ⟨tokens, next, next', hs, ht, hafter⟩ | ⟨next, next', hs, ht, hafter⟩
      · rw [hs, ht]
        exact ih _ _ next next' hafter
      · rw [hs, ht]
        exact ⟨rfl, hafter⟩
    · exact ⟨rfl, hst⟩

theorem repeatStep (h : p.Parallels R) {step other : Step} (hstep : Simulates R step other) :
    Simulates R (repeatStep step) (repeatStep other) := by
  intro s t hst
  have hlength : s.cursor.length = t.cursor.length := congrArg Place.sourceLength (h.alike hst).place
  rw [Program.repeatStep, Program.repeatStep, hlength, h.position hst]
  rcases (hstep s t hst).matched_or_failed with
    ⟨tokens, next, next', hs, ht, hafter⟩ | ⟨next, next', hs, ht, hafter⟩
  · rw [hs, ht]
    exact h.repeatFrom hstep _ _ _ next next' hafter
  · rw [hs, ht]
    exact ⟨rfl, hafter⟩

/-! ### Trees -/

theorem extended (h : p.Parallels R) (hcalls : CallsAlike R call plain) (parser : Parser) (s : Running) :
    s.cursor.Extends (node p call parser s).2.cursor :=
  (backtracks_node h.moves hcalls.backtracks parser s).extended

theorem extended_plain (h : p.Parallels R) (hcalls : CallsAlike R call plain) (parser : Parser)
    (t : Running) : t.cursor.Extends (node p.bare plain parser t).2.cursor :=
  (backtracks_node (p := p.bare) h.moves hcalls.backtracks_plain parser t).extended

theorem returned (h : p.Parallels R) (hcalls : CallsAlike R call plain) {parser : Parser}
    {s t : Running} (hst : R s t)
    (hnode : Reflects R (node p call parser s) (node p.bare plain parser.bare t)) :
    R ((node p call parser s).2.restore s.cursor.checkpoint)
      ((node p.bare plain parser.bare t).2.restore t.cursor.checkpoint) :=
  h.restored hst hnode.after (h.extended hcalls parser s) (h.extended_plain hcalls parser.bare t)
    (hcalls.reported_plain parser.bare t)

mutual

/-- A parser does what it does when it is bare, if its alternatives can be skipped. -/
theorem node (h : p.Parallels R) (hcalls : CallsAlike R call plain) :
    (parser : Parser) → p.SkipsAlike R plain parser →
      Simulates R (node p call parser) (node p.bare plain parser.bare)
  | .literal text, _ => h.literal text
  | .regex pattern, _ => h.regex pattern
  | .eof, _ => h.eof
  | .indent, _ => h.indentation
  | .sequence items, hskips => fun s t hst => by
    rw [Program.node, Parser.bare, Program.node]
    exact h.runItems hcalls hst items (fun _ => hskips.part) [] s t hst (.refl s.cursor) (.refl t.cursor)
      (.refl t.report)
  | .repeated body, hskips => by
    rw [Program.node, Parser.bare, Program.node]
    have hbody := hskips.part List.mem_cons_self
    exact h.repeatStep (h.node hcalls body hbody)
  | .choice branches, hskips => fun s t hst => by
    rw [Program.node, Parser.bare, Program.node]
    have hbranches : ∀ branch ∈ branches,
        p.SkippedAlike R plain branch ∧ p.SkipsAlike R plain branch.2 :=
      fun branch hbranch =>
        ⟨hskips branches .root branch hbranch, hskips.part (List.mem_map_of_mem hbranch)⟩
    exact h.runBranches hcalls hst branches hbranches s t hst (.refl s.cursor) (.refl t.cursor)
      (.refl t.report)
  | .ahead body, hskips => fun s t hst => by
    have hbody := h.node hcalls body (hskips.part List.mem_cons_self) s t hst
    rw [Program.node, Parser.bare, Program.node]
    dsimp only
    rw [hbody.outcome]
    exact ⟨rfl, h.returned hcalls hst hbody⟩
  | .notAhead body, hskips => fun s t hst => by
    have hbody := h.node hcalls body (hskips.part List.mem_cons_self) s t hst
    rw [Program.node, Parser.bare, Program.node]
    dsimp only
    rw [hbody.outcome]
    exact ⟨rfl, h.returned hcalls hst hbody⟩
  | .optional body, hskips => fun s t hst => by
    have hbody := h.node hcalls body (hskips.part List.mem_cons_self) s t hst
    have hback := h.returned hcalls hst hbody
    rw [Program.node, Parser.bare, Program.node]
    dsimp only
    rcases hbody.matched_or_failed with
      ⟨tokens, next, next', hpruned, hplain, hafter⟩ | ⟨next, next', hpruned, hplain, -⟩
    · rw [hpruned, hplain]
      exact ⟨rfl, hafter⟩
    · rw [hpruned, hplain] at hback ⊢
      exact ⟨rfl, hback⟩
  | .script source handle, _ => h.script source handle
  | .rule id, _ => hcalls.simulates id

theorem runItems (h : p.Parallels R) (hcalls : CallsAlike R call plain) {s₀ t₀ : Running}
    (hst₀ : R s₀ t₀) :
    (items : List Parser) → (∀ item ∈ items, p.SkipsAlike R plain item) → (found : List Chain) →
      (s t : Running) → R s t → s₀.cursor.Extends s.cursor → t₀.cursor.Extends t.cursor →
        t₀.report.Le t.report →
        Reflects R (runItems p call s₀.cursor.checkpoint found items s)
          (runItems p.bare plain t₀.cursor.checkpoint found (Parser.bareItems items) t)
  | [], _, _, s, t, hst, _, _, _ => by
    rw [Program.runItems, Parser.bareItems, Program.runItems]
    exact ⟨rfl, hst⟩
  | item :: items, hskips, found, s, t, hst, hs, ht, hreport => by
    obtain ⟨hitem, hrest⟩ := List.forall_mem_cons.1 hskips
    have hs' := hs.trans (h.extended hcalls item s)
    have ht' := ht.trans (h.extended_plain hcalls item.bare t)
    have hreport' := hreport.trans (hcalls.reported_plain (p := p) item.bare t)
    rw [Program.runItems, Parser.bareItems, Program.runItems]
    dsimp only
    rcases (h.node hcalls item hitem s t hst).matched_or_failed with
      ⟨tokens, next, next', hpruned, hplain, hafter⟩ | ⟨next, next', hpruned, hplain, hafter⟩
    · rw [hpruned] at hs' ⊢
      rw [hplain] at ht' hreport' ⊢
      exact h.runItems hcalls hst₀ items hrest _ next next' hafter hs' ht' hreport'
    · rw [hpruned] at hs' ⊢
      rw [hplain] at ht' hreport' ⊢
      exact ⟨rfl, h.restored hst₀ hafter hs' ht' hreport'⟩

theorem runBranches (h : p.Parallels R) (hcalls : CallsAlike R call plain) {s₀ t₀ : Running}
    (hst₀ : R s₀ t₀) :
    (branches : List (Option BitSet × Parser)) →
      (∀ branch ∈ branches, p.SkippedAlike R plain branch ∧ p.SkipsAlike R plain branch.2) →
        (s t : Running) → R s t → s₀.cursor.Returns s.cursor → t₀.cursor.Returns t.cursor →
          t₀.report.Le t.report →
          Reflects R (runBranches p call s₀.cursor.checkpoint branches s)
            (runBranches p.bare plain t₀.cursor.checkpoint (Parser.bareBranches branches) t)
  | [], _, s, t, hst, _, _, _ => by
    rw [Program.runBranches, Parser.bareBranches, Program.runBranches]
    exact ⟨rfl, hst⟩
  | (first, branch) :: branches, hskips, s, t, hst, hs, ht, hreport => by
    obtain ⟨⟨hskipped, hbranch⟩, hrest⟩ := List.forall_mem_cons.1 hskips
    have hplainWorth : p.bare.worthTrying none t = (true, t) := rfl
    have htried := h.worthTrying first hst
    have hcursor := cursor_worthTrying p first s
    have ht' := ht.toExtends.trans (h.extended_plain hcalls branch.bare t)
    have hreport' := hreport.trans (hcalls.reported_plain (p := p) branch.bare t)
    rw [Program.runBranches, Parser.bareBranches, Program.runBranches]
    dsimp only
    rw [hplainWorth]
    rcases htry : p.worthTrying first s with ⟨_ | _, tried⟩
    · rw [htry] at hcursor
      obtain ⟨next', hplain, hback⟩ := hskipped s t tried hst htry
      dsimp only
      rw [hplain] at ht' hreport' ⊢
      rw [ht.checkpoint_eq] at hback
      exact h.runBranches hcalls hst₀ branches hrest _ _ hback (hcursor ▸ hs) ht'.returns_restore hreport'
    · rw [htry] at htried hcursor
      have htried' : s₀.cursor.Returns tried.cursor := hcursor ▸ hs
      have hs' := htried'.toExtends.trans (h.extended hcalls branch tried)
      dsimp only
      rcases (h.node hcalls branch hbranch tried t htried).matched_or_failed with
        ⟨tokens, next, next', hpruned, hplain, hafter⟩ | ⟨next, next', hpruned, hplain, hafter⟩
      · rw [hpruned, hplain]
        exact ⟨rfl, hafter⟩
      · rw [hpruned] at hs' ⊢
        rw [hplain] at ht' hreport' ⊢
        exact h.runBranches hcalls hst₀ branches hrest _ _ (h.restored hst₀ hafter hs' ht' hreport')
          hs'.returns_restore ht'.returns_restore hreport'

end

/-! ### Rules -/

/-- Rules do with pruning what they do without, however many more may be nested. -/
theorem callRule (h : p.Parallels R)
    (hskips : ∀ room, ∀ rule ∈ p.rules, p.SkipsAlike R (p.bare.callRule room) rule.body) (room : Nat) :
    ∀ id, Simulates R (p.callRule room id) (p.bare.callRule room id) := by
  induction room with
  | zero =>
    intro id s t hst
    have hrule : p.bare.rules[id]? = p.rules[id]?.map CompiledRule.bare := List.getElem?_map
    rw [Program.callRule, Program.callRule]
    dsimp only
    rw [hrule]
    cases p.rules[id]? with
    | none => exact ⟨rfl, hst⟩
    | some rule => exact ⟨rfl, h.tooDeep rule hst⟩
  | succ room ih =>
    intro id s t hst
    have hrule : p.bare.rules[id]? = p.rules[id]?.map CompiledRule.bare := List.getElem?_map
    have hcalls : CallsAlike R (p.callRule room) (p.bare.callRule room) :=
      ⟨ih, backtracks_callRule h.moves room, backtracks_callRule (p := p.bare) h.moves room,
        p.bare.reports_callRule room⟩
    have hlimit : p.bare.depthLimit = p.depthLimit := rfl
    rw [Program.callRule, Program.callRule]
    dsimp only
    rw [hrule, hlimit, h.position hst]
    cases hfound : p.rules[id]? with
    | none => exact ⟨rfl, hst⟩
    | some rule =>
      have hname : rule.bare.name = rule.name := rfl
      have hentered := h.traced (p.depthLimit - (room + 1))
        ("> " ++ rule.name ++ " @ " ++ toString t.position) hst
      have hbody := h.node hcalls rule.body (hskips room rule (List.mem_of_getElem? hfound)) _ _ hentered
      dsimp only [Option.map]
      rw [hname]
      rcases hbody.matched_or_failed with
        ⟨tokens, next, next', hpruned, hplain, hafter⟩ | ⟨next, next', hpruned, hplain, hafter⟩
      · change Program.node p.bare _ rule.bare.body _ = _ at hplain
        rw [hpruned, hplain]
        dsimp only
        rw [h.position hafter]
        exact ⟨congrArg some (wrap_bare rule _ tokens (h.alike hafter)), h.traced _ _ hafter⟩
      · change Program.node p.bare _ rule.bare.body _ = _ at hplain
        rw [hpruned, hplain]
        dsimp only
        rw [h.position hafter]
        exact ⟨rfl, h.traced _ _ hafter⟩

end Parallels

end PegGrammar.Program
