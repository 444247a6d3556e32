/-!
# Blocks

Every block of indentation that was ever opened is kept, newest first, with its number and the number
of the block that it was opened in. Numbers count the blocks in the order in which they were opened;
zero stands for the outermost block, which is not indented and is not kept. A block is newer than the
one around it, so the number of the innermost block determines all blocks that are open, whatever was
opened or closed since.
-/

namespace PegGrammar

/-- A block that was opened. -/
structure Block where
  number : Nat
  /-- The number of the block around it. -/
  parent : Nat
  /-- The indentation of its lines. -/
  indent : String
  deriving DecidableEq, Repr

namespace Block

/-- Blocks are numbered from one, oldest first, and lie in blocks of smaller numbers. -/
def Numbered : List Block → Prop
  | [] => True
  | b :: older => b.number = older.length + 1 ∧ b.parent < b.number ∧ Numbered older

/-- The number of the block around a block; the outermost lies in itself. -/
def parentOf (n : Nat) : List Block → Nat
  | [] => 0
  | b :: older => if b.number = n then b.parent else parentOf n older

/-- The indentations of a block and of those around it, innermost first, without the outermost. -/
def indentsFrom (n : Nat) : List Block → List String
  | [] => []
  | b :: older => if b.number = n then b.indent :: indentsFrom b.parent older else indentsFrom n older

theorem parentOf_le {bs : List Block} (h : Numbered bs) (n : Nat) : parentOf n bs ≤ bs.length := by
  induction bs with
  | nil => simp [parentOf]
  | cons b bs ih =>
    simp only [parentOf]
    split
    · have := h.1
      have := h.2.1
      simp only [List.length_cons]
      omega
    · exact Nat.le_succ_of_le (ih h.2.2)

end Block

end PegGrammar
