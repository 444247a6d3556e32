import PegGrammar.Proofs.Program.Parallel
import PegGrammar.Proofs.Program.Skipping
import PegGrammar.Proofs.Script.Alike

/-!
# Running with and without pruning

A run that skips alternatives is mirrored by a run of the bare program, which skips none. The two have
cursors that look alike, though not the same blocks: the bare run may open some in an alternative that the
other one skips. For the same reason its report says at least as much. What is kept of the literals that the
text starts with is right all along, because the text has one place at an offset.

Where an alternative is skipped, the bare run tries it and fails, since it is guarded; then it comes back, and
the cursors are alike again. Everything else the runs do side by side.
-/

namespace PegGrammar

namespace Running

/-- What is kept of the literals that the text starts with is right. -/
def Remembers (p : Program) (s : Running) : Prop :=
  ∀ position set, s.starting = some (position, set) → ∀ place : Place,
    place.source = s.cursor.place.source → place.offset = position →
      set = p.literalsStarting place.rest

/-- A run with pruning, and one without at the same point. -/
structure Mirrors (p : Program) (s t : Running) : Prop where
  cursor : s.cursor.Alike t.cursor
  report : s.report.Le t.report
  remembers : s.Remembers p

variable {p : Program} {s t : Running}

theorem remembers_start (p : Program) (cursor : Cursor) : (start cursor).Remembers p := nofun

theorem Remembers.movedTo (h : s.Remembers p) {c : Cursor} (hc : s.cursor.Extends c) : (s.movedTo c).Remembers p :=
  fun position set hstarting place hsource => h position set hstarting place (hsource.trans hc.source)

theorem Mirrors.position (h : s.Mirrors p t) : s.position = t.position := h.cursor.position

theorem Mirrors.remaining (h : s.Mirrors p t) : s.cursor.remaining = t.cursor.remaining :=
  congrArg Place.rest h.cursor.place

theorem Mirrors.reached (h : s.Mirrors p t) (n : Nat) : (s.reached n).Mirrors p (t.reached n) := by
  refine ⟨h.cursor, ⟨?_, h.report.depthLimitReached⟩, h.remembers⟩
  have := h.report.furthest
  change max s.report.furthest n ≤ max t.report.furthest n
  omega

theorem Mirrors.record (h : s.Mirrors p t) (level : LogLevel) (message message' : String) :
    (s.record level message).Mirrors p (t.record level message') :=
  ⟨h.cursor, h.report, h.remembers⟩

theorem Mirrors.movedTo (h : s.Mirrors p t) {c d : Cursor} (hcd : c.Alike d)
    (hc : s.cursor.Extends c) : (s.movedTo c).Mirrors p (t.movedTo d) :=
  ⟨hcd, h.report, h.remembers.movedTo hc⟩

theorem Mirrors.restore (h : s.Mirrors p t) {c d : Cursor} (hcd : c.Alike d)
    (hc : c.Extends s.cursor) (hd : d.Extends t.cursor) :
    (s.restore c.checkpoint).Mirrors p (t.restore d.checkpoint) := by
  have hback : (s.cursor.restore c.checkpoint).Alike (t.cursor.restore d.checkpoint) :=
    hc.returns_restore.alike.symm.trans (hcd.trans hd.returns_restore.alike)
  exact h.movedTo hback (Cursor.extends_restore _ _)

end Running

namespace Program

variable {p : Program}

/-! ### Leaves -/

theorem simulates_literalStep (text : String) :
    Simulates (Running.Mirrors p) (literalStep text) (literalStep text) := by
  intro s t h
  rw [literalStep, literalStep]
  rw [Running.cursor_reached, Running.cursor_reached, Cursor.eat?, Cursor.eat?, h.cursor.place,
    h.position]
  cases heat : t.cursor.place.eat? text.toList with
  | none => exact ⟨rfl, h.reached _⟩
  | some place =>
    have hmove : s.cursor.Extends (s.cursor.moveTo place) :=
      Cursor.extends_moveTo (h.cursor.place ▸ (Place.eat?_eq_some heat).1)
    exact ⟨rfl, ((h.reached _).movedTo (h.cursor.moveTo place) hmove).reached _⟩

theorem match?_alike (pattern : Pattern) {c d : Cursor} (h : c.Alike d) :
    (pattern.match? c = none ∧ pattern.match? d = none) ∨
      ∃ value n, pattern.match? c = some (value, c.advance n) ∧
        pattern.match? d = some (value, d.advance n) := by
  rw [Pattern.match?, Pattern.match?, Cursor.remaining, Cursor.remaining, h.position, h.place]
  split
  · cases pattern.machine.matchAt? d.place with
    | none => exact .inl ⟨rfl, rfl⟩
    | some stop => exact .inr ⟨_, _, rfl, rfl⟩
  · cases pattern.find? d.place.rest with
    | none => exact .inl ⟨rfl, rfl⟩
    | some bounds => exact .inr ⟨_, _, rfl, rfl⟩

theorem simulates_regexStep (pattern : Pattern) :
    Simulates (Running.Mirrors p) (regexStep pattern) (regexStep pattern) := by
  intro s t h
  rw [regexStep, regexStep]
  rw [Running.cursor_reached, Running.cursor_reached, h.position]
  rcases match?_alike pattern h.cursor with ⟨hs, ht⟩ | ⟨value, n, hs, ht⟩
  · rw [hs, ht]
    exact ⟨rfl, h.reached _⟩
  · rw [hs, ht]
    dsimp only
    have hmoved := h.cursor.advance n
    rw [hmoved.position]
    exact ⟨rfl, ((h.reached _).movedTo hmoved (Cursor.extends_advance _ _)).reached _⟩

theorem simulates_eofStep : Simulates (Running.Mirrors p) eofStep eofStep := by
  intro s t h
  rw [eofStep, eofStep]
  rw [Running.cursor_reached, Running.cursor_reached, Cursor.isDone, Cursor.isDone, h.cursor.place,
    h.position]
  exact ⟨rfl, h.reached _⟩

theorem simulates_indentation : Simulates (Running.Mirrors p) indentation indentation := by
  intro s t h
  have matched : ∀ {c d : Cursor} (tokens : Chain) (stop : Nat), c.Alike d → s.cursor.Extends c →
      Reflects (Running.Mirrors p)
        (some tokens, ((s.reached t.position).movedTo (c.setPosition stop)).reached
          (c.setPosition stop).position)
        (some tokens, ((t.reached t.position).movedTo (d.setPosition stop)).reached
          (d.setPosition stop).position) := by
    intro c d tokens stop hcd hc
    have hmoved := hcd.setPosition stop
    rw [hmoved.position]
    have hextends := hc.trans (Cursor.extends_setPosition c stop)
    exact ⟨rfl, ((h.reached _).movedTo hmoved hextends).reached _⟩
  rw [indentation, indentation]
  dsimp only
  rw [Running.cursor_reached, Running.cursor_reached, h.position, h.remaining, h.cursor.innermost,
    h.cursor.indents]
  split
  · exact matched _ _ h.cursor (.refl s.cursor)
  split
  · exact matched _ _ (h.cursor.pushIndent _) (Cursor.extends_pushIndent _ _)
  split
  · exact matched _ _ (h.cursor.popIndents _) (Cursor.extends_popIndents _ _)
  · exact ⟨rfl, (h.reached _).record _ _ _⟩

theorem simulates_scriptStep (hmoves : p.scripts.OnlyMoves) (hsees : p.scripts.SeesAlike)
    (source : String) (handle : Nat) :
    Simulates (Running.Mirrors p) (p.scriptStep source handle) (p.bare.scriptStep source handle) := by
  intro s t h
  have hscripts : p.bare.scripts = p.scripts := rfl
  have hs := (hmoves handle s.cursor).toExtends
  have ht := (hmoves handle t.cursor).toExtends
  obtain ⟨houtcome, hmoved⟩ := hsees handle s.cursor t.cursor h.cursor
  rw [scriptStep, scriptStep, hscripts]
  dsimp only
  rcases hrun : p.scripts.run handle s.cursor with ⟨outcome, moved⟩
  rcases hrun' : p.scripts.run handle t.cursor with ⟨outcome', moved'⟩
  rw [hrun] at houtcome hmoved hs
  rw [hrun'] at houtcome hmoved ht
  cases (houtcome : outcome = outcome')
  cases outcome with
  | ok tokens =>
    dsimp only
    rw [hmoved.position]
    exact ⟨rfl, (h.movedTo hmoved hs).reached _⟩
  | error reason =>
    exact ⟨rfl, ((h.record _ _ _).movedTo hmoved hs).restore h.cursor hs ht⟩

/-! ### Alternatives -/

/-- What is kept is used and kept rightly: an alternative is tried unless nothing that it carries stands at
the cursor. -/
theorem worthTrying_spec (first : Option BitSet) {s : Running} (hs : s.Remembers p) :
    (p.worthTrying first s).1 =
        first.all (fun set => (p.literalsStarting s.cursor.remaining).overlaps set) ∧
      (p.worthTrying first s).2.Remembers p := by
  cases first with
  | none => exact ⟨rfl, hs⟩
  | some first =>
    have hfresh : Running.Remembers p
        { s with starting := some (s.position, p.literalsStarting s.cursor.remaining) } := by
      intro position set hstarting place hsource hoffset
      cases hstarting
      rw [Place.eq_of_source_of_offset hsource hoffset]
      rfl
    rw [worthTrying, mayStart]
    split
    · rename_i position set hstarting
      split
      · rename_i hposition
        have hset := hs position set hstarting s.cursor.place rfl hposition.symm
        exact ⟨congrArg (BitSet.overlaps · first) hset, hs⟩
      · exact ⟨rfl, hfresh⟩
    · exact ⟨rfl, hfresh⟩

theorem mirrors_worthTrying (first : Option BitSet) {s t : Running} (h : s.Mirrors p t) :
    (p.worthTrying first s).2.Mirrors p t := by
  refine ⟨?_, ?_, (worthTrying_spec first h.remembers).2⟩
  · rw [cursor_worthTrying]
    exact h.cursor
  · rw [report_worthTrying]
    exact h.report

/-! ### Skipping -/

section

variable {plain : Nat → Step}

/-- A guarded alternative that is skipped fails when it is run without pruning. -/
theorem fails_of_skipped {first : Option BitSet} {branch : Parser}
    (hguarded : p.GuardedBranch plain (first, branch)) {s t tried : Running} (hst : s.Mirrors p t)
    (htry : p.worthTrying first s = (false, tried)) :
    ∃ next, node p.bare plain branch.bare t = (none, next) := by
  have hworth := (worthTrying_spec first hst.remembers).1
  rw [htry, hst.remaining] at hworth
  rcases hplain : node p.bare plain branch.bare t with ⟨_ | tokens, next⟩
  · exact ⟨next, rfl⟩
  · cases first with
    | none => cases hworth
    | some set => cases hworth.trans (hguarded set rfl t tokens next hplain)

theorem skipsAlike_of_guarded (hmoves : p.scripts.OnlyMoves) (hbacktracks : ∀ id, Backtracks (plain id))
    (hreports : ∀ id, Reports (plain id)) {q : Parser} (hguarded : p.Guarded plain q) :
    p.SkipsAlike (Running.Mirrors p) plain q := by
  intro branches hwithin branch hbranch s t tried hst htry
  obtain ⟨next, hplain⟩ := fails_of_skipped (hguarded branches hwithin branch hbranch) hst htry
  have hback := (backtracks_node (p := p.bare) hmoves hbacktracks branch.2.bare t).extended.returns_restore
  have hreport := accrual_report.node (p := p.bare) hreports branch.2.bare t
  have htried := mirrors_worthTrying branch.1 hst
  rw [hplain] at hback hreport
  rw [htry] at htried
  exact ⟨next, hplain, htried.cursor.trans hback.alike, htried.report.trans hreport, htried.remembers⟩

end

/-! ### Rules -/

theorem mirrors_traced {s t : Running} (h : s.Mirrors p t) (depth : Nat) (message : String) :
    (p.traced depth message s).Mirrors p (p.bare.traced depth message t) := by
  have htrace : p.bare.config.trace = p.config.trace := rfl
  rw [traced, traced, htrace]
  split
  · exact h.record _ _ _
  · exact h

theorem mirrors_tooDeep {s t : Running} (h : s.Mirrors p t) (rule : CompiledRule) :
    (p.tooDeep rule s).Mirrors p (p.bare.tooDeep rule.bare t) := by
  have hreported : ∀ {s t : Running}, s.Mirrors p t →
      Running.Mirrors p { s with report := { s.report with depthLimitReached := true } }
        { t with report := { t.report with depthLimitReached := true } } :=
    fun h => ⟨h.cursor, ⟨h.report.furthest, fun _ => rfl⟩, h.remembers⟩
  rw [tooDeep, tooDeep]
  refine hreported ?_
  split
  · split
    · exact h
    · exact ⟨h.cursor, h.report, h.remembers⟩
  · split
    · exact ⟨h.cursor, h.report, h.remembers⟩
    · exact h.record _ _ _

theorem parallels_mirrors (hmoves : p.scripts.OnlyMoves) (hsees : p.scripts.SeesAlike) :
    p.Parallels (Running.Mirrors p) where
  moves := hmoves
  alike hst := hst.cursor
  restored hst hafter hs ht _ := hafter.restore hst.cursor hs ht
  worthTrying first _ _ hst := mirrors_worthTrying first hst
  literal := simulates_literalStep
  regex := simulates_regexStep
  eof := simulates_eofStep
  indentation := simulates_indentation
  script := simulates_scriptStep hmoves hsees
  traced depth message hst := mirrors_traced hst depth message
  tooDeep rule hst := mirrors_tooDeep hst rule

/-- Rules do with pruning what they do without, however many more may be nested. -/
theorem simulates_callRule (hmoves : p.scripts.OnlyMoves) (hsees : p.scripts.SeesAlike)
    (hguarded : ∀ room, ∀ rule ∈ p.rules, p.Guarded (p.bare.callRule room) rule.body) (room : Nat) :
    ∀ id, Simulates (Running.Mirrors p) (p.callRule room id) (p.bare.callRule room id) :=
  (parallels_mirrors hmoves hsees).callRule (fun room rule hrule =>
    skipsAlike_of_guarded hmoves (backtracks_callRule (p := p.bare) hmoves room)
      (p.bare.reports_callRule room) (hguarded room rule hrule)) room

end Program

end PegGrammar
