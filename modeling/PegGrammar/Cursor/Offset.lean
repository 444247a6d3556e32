import PegGrammar.Cursor.Basic

/-!
# Bare offsets

A cursor into an input of which only the length is known. It has no blocks, so its checkpoints are
offsets.
-/

namespace PegGrammar

/-- An offset into an input of known length. -/
structure Offset where
  length : Nat
  position : Nat

namespace Offset

/-- The offset `n`, or the end of a shorter input. -/
def setPosition (o : Offset) (n : Nat) : Offset := { o with position := min n o.length }

/-- The offset `n` further on. -/
def advance (o : Offset) (n : Nat) : Offset := o.setPosition (o.position + n)

/-- What brings the offset back to here. -/
def checkpoint (o : Offset) : Checkpoint := ⟨o.position, 0⟩

/-- Brings an offset back. -/
def restore (o : Offset) (p : Checkpoint) : Offset := o.setPosition p.position

end Offset

end PegGrammar
