import PegGrammar.Proofs.Compile.Renumbering
import PegGrammar.Proofs.Program.Lockstep
import PegGrammar.Proofs.Program.Mirroring

/-!
# Running with other numbers

Two programs that differ in the numbers of literals only do the same on every text. What is kept of the literals that
the text starts with is not the same in both runs, as it is kept by numbers. But nothing except the test of an
alternative looks at it, and the test asks whether one of the literals of the alternative stands at the cursor, which
does not depend on their numbers.
-/

namespace PegGrammar

/-- Two runs at the same point, in which what is kept of the literals is right by the numbers of either program. -/
structure Running.Recast (p q : Program) (s t : Running) : Prop where
  cursor : s.cursor = t.cursor
  report : s.report = t.report
  log : s.log = t.log
  remembers : s.Remembers p
  remembers' : t.Remembers q

namespace Program

variable {p q : Program} {s t : Running}

theorem aligned_recast : Aligned (Running.Recast p q) where
  cursor h := h.cursor
  report h := h.report
  movedTo h hc :=
    ⟨rfl, h.report, h.log, Running.Remembers.movedTo h.remembers hc,
      Running.Remembers.movedTo h.remembers' (h.cursor ▸ hc)⟩
  reporting _ h := ⟨h.cursor, rfl, h.log, h.remembers, h.remembers'⟩
  record _ _ h := ⟨h.cursor, h.report, congrArg (_ :: ·) h.log, h.remembers, h.remembers'⟩

theorem overlaps_of_sameLiterals (hp : p.literals.Sound) (hq : q.literals.Sound) {first first' : Option BitSet}
    (h : SameLiterals p.literals q.literals first first') (text : List Char) :
    first.all (fun set => (p.literalsStarting text).overlaps set) =
      first'.all (fun set => (q.literalsStarting text).overlaps set) := by
  cases h with
  | nothing => rfl
  | sets hset hset' =>
    exact Bool.eq_iff_iff.2 ((overlaps_literalsStarting_iff hp hset text).trans
      (overlaps_literalsStarting_iff hq hset' text).symm)

theorem recast_worthTrying (hpq : p.Renumbers q) {first first' : Option BitSet}
    (hfirst : SameLiterals p.literals q.literals first first') (h : s.Recast p q t) :
    (p.worthTrying first s).1 = (q.worthTrying first' t).1 ∧
      (p.worthTrying first s).2.Recast p q (q.worthTrying first' t).2 := by
  obtain ⟨hverdict, hremembers⟩ := worthTrying_spec first h.remembers
  obtain ⟨hverdict', hremembers'⟩ := worthTrying_spec first' h.remembers'
  refine ⟨?_, ?_, ?_, ?_, hremembers, hremembers'⟩
  · rw [hverdict, hverdict', ← h.cursor]
    exact overlaps_of_sameLiterals hpq.sound hpq.sound' hfirst _
  · rw [cursor_worthTrying, cursor_worthTrying, h.cursor]
  · rw [report_worthTrying, report_worthTrying, h.report]
  · rw [log_worthTrying, log_worthTrying, h.log]

theorem Renumbers.depthLimit (h : p.Renumbers q) : q.depthLimit = p.depthLimit := by
  rw [Program.depthLimit, Program.depthLimit, roomPerLevel, roomPerLevel, h.config, h.nesting]

theorem Renumbers.lockstep (h : p.Renumbers q) (hscripts : p.scripts.OnlyMoves) :
    p.Lockstep q 0 (Running.Recast p q) id (SameLiterals p.literals q.literals) := by
  refine aligned_recast.lockstep h.rules h.depthLimit h.scripts hscripts (congrArg Config.parseTree h.config)
    (fun hfirst hst => recast_worthTrying h hfirst hst) fun depth message hst => ?_
  rw [traced, traced, h.config]
  split
  · exact ⟨hst.cursor, hst.report, congrArg (_ :: ·) hst.log, hst.remembers, hst.remembers'⟩
  · exact hst

theorem Renumbers.runRule_eq (h : p.Renumbers q) (hscripts : p.scripts.OnlyMoves) (id : Nat) (cursor : Cursor) :
    q.runRule id cursor = p.runRule id cursor := by
  have hstart : (Running.start cursor).Recast p q (.start cursor) :=
    ⟨rfl, rfl, rfl, Running.remembers_start p cursor, Running.remembers_start q cursor⟩
  obtain ⟨houtcome, hafter⟩ := (h.lockstep hscripts).callRule p.depthLimit id _ _ hstart
  rw [List.map_id_fun, Option.map_id_fun, id_eq] at houtcome
  rw [runRule, runRule, h.depthLimit]
  dsimp only
  rw [houtcome, hafter.cursor, hafter.report, hafter.log]

end Program

/-- In which order literals get their numbers, and from which registry, is not seen from outside. For any two orders,
compiling gives the same error, or two programs that have the same rules, but for the numbers that are carried in them,
and of which every run from every cursor has the same result, with the same tokens, cursor, report and records. So
whatever is proved of the programs that the compiler makes, which goes through literals in the order of their bytes,
holds of those that it would make in any other. Where a rule expands without end, there are none in any order. -/
theorem Compiler.runs_in_any_order {c : Compiler} (hcarry : ∀ entry ∈ c.overrides, entry.2.CarriesNothing)
    (hscripts : c.scripts.OnlyMoves) (order : LiteralOrder) (start : String) :
    (∃ error, (c.compile start).1 = .error error ∧ c.compileIn order start = .error error) ∨
      ∃ p q, (c.compile start).1 = .ok p ∧ c.compileIn order start = .ok q ∧ p.Renumbers q ∧
        ∀ id cursor, q.runRule id cursor = p.runRule id cursor := by
  rw [← c.compileIn_ascending]
  rcases c.renumbers_of_compileIn hcarry .ascending order start with herror | ⟨p, q, hp, hq, hpq⟩
  · exact .inl herror
  · have hengine : p.scripts = c.scripts := by
      obtain ⟨_, _, _, _, _, _, _, _, hprogram⟩ := exists_session_of_compileIn hp
      rw [hprogram]
    exact .inr ⟨p, q, hp, hq, hpq, hpq.runRule_eq (hengine ▸ hscripts)⟩

end PegGrammar
