import PegGrammar.Script.Stock
import PegGrammar.Proofs.Cursor.Extension

/-!
# What scripts can do to a cursor

A script is handed a cursor and moves it, step by step, through what a cursor offers. Nothing else is
asked of it: it may go back, close blocks that it did not open, come back to a checkpoint of its own, and
fail after all that. The cursor it leaves behind still extends the one it was given.
-/

namespace PegGrammar

namespace Cursor

/-- What a script can make of the cursor it is given: any number of moves, of blocks opened or closed,
and of returns to checkpoints. -/
inductive Moves (c : Cursor) : Cursor → Prop
  | stay : Moves c c
  | setPosition {d : Cursor} (n : Nat) : Moves c d → Moves c (d.setPosition n)
  | advance {d : Cursor} (n : Nat) : Moves c d → Moves c (d.advance n)
  | eat {d e : Cursor} {text : String} : d.eat? text = some e → Moves c d → Moves c e
  | pushIndent {d : Cursor} (indent : String) : Moves c d → Moves c (d.pushIndent indent)
  | popIndents {d : Cursor} (n : Nat) : Moves c d → Moves c (d.popIndents n)
  | restore {d : Cursor} (p : Checkpoint) : Moves c d → Moves c (d.restore p)

theorem Moves.toExtends {c d : Cursor} (h : c.Moves d) : c.Extends d := by
  induction h with
  | stay => exact .refl c
  | setPosition n _ ih => exact ih.trans (extends_setPosition _ n)
  | advance n _ ih => exact ih.trans (extends_advance _ n)
  | eat heat _ ih => exact ih.trans (extends_eat? heat)
  | pushIndent indent _ ih => exact ih.trans (extends_pushIndent _ indent)
  | popIndents n _ ih => exact ih.trans (extends_popIndents _ n)
  | restore p _ ih => exact ih.trans (extends_restore _ p)

end Cursor

/-- Scripts act on the cursor through its moves only. -/
def ScriptEngine.OnlyMoves (engine : ScriptEngine) : Prop :=
  ∀ (handle : Nat) (cursor : Cursor), cursor.Moves (engine.run handle cursor).2

namespace RegisteredScripts

theorem onlyMoves_toEngine {engine : RegisteredScripts}
    (hscripts : ∀ entry ∈ engine.scripts, ∀ bindings (cursor : Cursor),
      cursor.Moves (entry.2 bindings cursor).2) :
    engine.toEngine.OnlyMoves := by
  intro handle cursor
  change cursor.Moves (engine.run handle cursor).2
  rw [run]
  split
  · rename_i name script hget
    exact hscripts _ (List.mem_of_getElem? hget) engine.bindings cursor
  · exact .stay

end RegisteredScripts

namespace Script

theorem moves_takeRun (kind : String) (keep : Char → Bool) (cursor : Cursor) :
    cursor.Moves (takeRun kind keep cursor).2 := by
  rw [takeRun]
  dsimp only
  split
  · exact .stay
  · exact .advance _ .stay

theorem moves_takeWord (bindings : Bindings) (cursor : Cursor) :
    cursor.Moves (takeWord bindings cursor).2 := by
  rw [takeWord]
  split
  · exact .stay
  · split
    · rename_i moved heat
      exact .eat heat .stay
    · exact .stay

/-- The stock scripts act through moves, also those that fail after moving. -/
theorem moves_stock : ∀ entry ∈ stock, ∀ bindings (cursor : Cursor),
    cursor.Moves (entry.2 bindings cursor).2 := by
  intro entry hentry bindings cursor
  simp only [stock, List.mem_cons, List.not_mem_nil, or_false] at hentry
  rcases hentry with rfl | rfl | rfl | rfl | rfl | rfl | rfl | rfl | rfl | rfl | rfl
  · exact moves_takeRun _ _ cursor
  · exact moves_takeRun _ _ cursor
  · exact .pushIndent _ (.advance _ .stay)
  · exact .stay
  · exact .advance _ .stay
  · exact .setPosition _ .stay
  · exact .advance _ (.advance _ .stay)
  · exact .advance _ (.advance _ .stay)
  · exact .pushIndent _ .stay
  · exact .popIndents _ .stay
  · exact moves_takeWord bindings cursor

theorem onlyMoves_stockEngine : (stockEngine []).toEngine.OnlyMoves :=
  RegisteredScripts.onlyMoves_toEngine moves_stock

end Script

end PegGrammar
