import PegGrammar.Script.Stock
import PegGrammar.Proofs.Cursor.Alike

/-!
# What scripts can tell of a cursor

A script is a function of the text, the position and the indentations. It is not shown the numbers of
blocks, so it cannot tell cursors that look alike: it gives the same on both and leaves them alike.
-/

namespace PegGrammar

/-- The same outcome on two cursors, which look alike afterwards. -/
def ScriptResult.Alike (result other : ScriptResult) : Prop :=
  result.1 = other.1 ∧ result.2.Alike other.2

/-- Scripts tell no difference between cursors that look alike. -/
def ScriptEngine.SeesAlike (engine : ScriptEngine) : Prop :=
  ∀ handle (c d : Cursor), c.Alike d →
    ScriptResult.Alike (engine.run handle c) (engine.run handle d)

theorem RegisteredScripts.seesAlike_toEngine {engine : RegisteredScripts}
    (hscripts : ∀ entry ∈ engine.scripts, ∀ bindings (c d : Cursor), c.Alike d →
      ScriptResult.Alike (entry.2 bindings c) (entry.2 bindings d)) :
    engine.toEngine.SeesAlike := by
  intro handle c d h
  change ScriptResult.Alike (engine.run handle c) (engine.run handle d)
  rw [run, run]
  split
  · rename_i name script hget
    exact hscripts _ (List.mem_of_getElem? hget) engine.bindings c d h
  · exact ⟨rfl, h⟩

namespace Script

variable {c d : Cursor}

private theorem alike_move (h : c.Alike d) : ScriptResult.Alike (move c) (move d) := ⟨rfl, h⟩

theorem alike_takeRun (kind : String) (keep : Char → Bool) (h : c.Alike d) :
    ScriptResult.Alike (takeRun kind keep c) (takeRun kind keep d) := by
  have hwidth : runWidth keep c = runWidth keep d := by
    rw [runWidth, runWidth, Cursor.remaining, Cursor.remaining, h.place]
  rw [takeRun, takeRun]
  dsimp only
  rw [hwidth, h.position]
  split
  · exact ⟨rfl, h⟩
  · refine ⟨?_, h.advance _⟩
    rw [Cursor.textBetween, Cursor.textBetween, h.place]

theorem alike_pairTokens (h : c.Alike d) :
    (pairTokens c).1 = (pairTokens d).1 ∧ (pairTokens c).2.Alike (pairTokens d).2 := by
  have hmiddle := (h.advance 1).position
  have hmoved := (h.advance 1).advance 1
  refine ⟨?_, hmoved⟩
  rw [pairTokens, pairTokens]
  dsimp only
  rw [hmiddle, hmoved.position, h.position]
  simp only [Cursor.textBetween, h.place]

theorem alike_takeWord (bindings : Bindings) (h : c.Alike d) :
    ScriptResult.Alike (takeWord bindings c) (takeWord bindings d) := by
  rw [takeWord, takeWord]
  split
  · exact ⟨rfl, h⟩
  · rename_i word _
    rw [Cursor.eat?, Cursor.eat?, h.place, h.position]
    cases d.place.eat? word.toList with
    | none => exact ⟨rfl, h⟩
    | some place => exact ⟨rfl, h.moveTo place⟩

/-- The stock scripts see no more than is shown. -/
theorem alike_stock : ∀ entry ∈ stock, ∀ bindings (c d : Cursor), c.Alike d →
    ScriptResult.Alike (entry.2 bindings c) (entry.2 bindings d) := by
  intro entry hentry bindings c d h
  obtain ⟨htokens, hmoved⟩ := alike_pairTokens h
  simp only [stock, List.mem_cons, List.not_mem_nil, or_false] at hentry
  rcases hentry with rfl | rfl | rfl | rfl | rfl | rfl | rfl | rfl | rfl | rfl | rfl
  · exact alike_takeRun _ _ h
  · exact alike_takeRun _ _ h
  · exact ⟨rfl, (h.advance 2).pushIndent _⟩
  · exact alike_move h
  · exact alike_move (h.advance 1)
  · exact alike_move (h.setPosition 0)
  · exact ⟨congrArg Except.ok htokens, hmoved⟩
  · refine ⟨?_, hmoved⟩
    dsimp only
    rw [htokens, hmoved.position, h.position, Cursor.textBetween, Cursor.textBetween, h.place]
  · exact alike_move (h.pushIndent _)
  · exact alike_move (h.popIndents 1)
  · exact alike_takeWord bindings h

theorem seesAlike_stockEngine : (stockEngine []).toEngine.SeesAlike :=
  RegisteredScripts.seesAlike_toEngine alike_stock

end Script

end PegGrammar
