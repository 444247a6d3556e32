import PegGrammar.Cursor.Block
import PegGrammar.Text.Place

/-!
# Cursors

A cursor is a place in a text together with the blocks of indentation that are open there. A
checkpoint holds its offset and the number of its innermost block; since blocks are kept for good,
that is enough to come back to the same place with the same blocks open.
-/

namespace PegGrammar

/-- What a cursor can be brought back to. -/
structure Checkpoint where
  position : Nat
  /-- The number of the innermost open block. -/
  block : Nat
  deriving DecidableEq, Repr

/-- A place in a text, with the blocks that are open. -/
structure Cursor where
  place : Place
  /-- All blocks that were ever opened, newest first. -/
  blocks : List Block
  /-- The number of the innermost open block. -/
  block : Nat
  numbered : Block.Numbered blocks
  block_le : block ≤ blocks.length

namespace Cursor

/-- The cursor in front of a text, with only the outermost block open. -/
def start (text : String) : Cursor := ⟨.start text.toList, [], 0, trivial, Nat.le_refl _⟩

/-! ### Moving -/

/-- The byte offset of the cursor. -/
def position (c : Cursor) : Nat := c.place.offset

/-- The width of the text. -/
def length (c : Cursor) : Nat := c.place.sourceLength

def remaining (c : Cursor) : List Char := c.place.rest

def isDone (c : Cursor) : Bool := c.place.atEnd

def moveTo (c : Cursor) (p : Place) : Cursor := { c with place := p }

/-- The cursor at byte offset `n`, or at the end of a shorter text. -/
def setPosition (c : Cursor) (n : Nat) : Cursor := c.moveTo (c.place.seek n)

/-- The cursor `n` bytes on. -/
def advance (c : Cursor) (n : Nat) : Cursor := c.setPosition (c.position + n)

/-- The cursor behind `text`, if that text follows. -/
def eat? (c : Cursor) (text : String) : Option Cursor := (c.place.eat? text.toList).map c.moveTo

/-- The text between two offsets; nothing if they are not in order. -/
def textBetween (c : Cursor) (start stop : Nat) : String := (c.place.seek start).textTo stop

/-- Line and column of a byte offset. -/
def lineCol (c : Cursor) (n : Nat) : Nat × Nat := (c.place.seek n).lineCol

/-! ### Blocks -/

/-- The indentations of the open blocks, outermost first. -/
def indents (c : Cursor) : List String := "" :: (Block.indentsFrom c.block c.blocks).reverse

/-- The indentation of the innermost open block. -/
def innermost (c : Cursor) : String := (Block.indentsFrom c.block c.blocks).headD ""

/-- Opens a block. The newest block is opened again if it is the same. -/
def pushIndent (c : Cursor) (indent : String) : Cursor :=
  let fresh : Cursor :=
    { c with
      blocks := ⟨c.blocks.length + 1, c.block, indent⟩ :: c.blocks
      block := c.blocks.length + 1
      numbered := ⟨rfl, Nat.lt_succ_of_le c.block_le, c.numbered⟩
      block_le := Nat.le_refl _ }
  if c.blocks.head?.any (fun b => b.parent = c.block ∧ b.indent = indent) then
    { c with block := c.blocks.length, block_le := Nat.le_refl _ }
  else fresh

/-- Closes the innermost block; the outermost is never closed. -/
def popIndent (c : Cursor) : Cursor :=
  { c with
    block := Block.parentOf c.block c.blocks
    block_le := Block.parentOf_le c.numbered c.block }

/-- Closes the innermost `n` blocks. Nothing changes once only the outermost is open. -/
def popIndents (c : Cursor) : Nat → Cursor
  | 0 => c
  | n + 1 => if c.block = 0 then c else c.popIndent.popIndents n

/-! ### Coming back -/

def checkpoint (c : Cursor) : Checkpoint := ⟨c.position, c.block⟩

/-- Brings a cursor back. A block that was never opened is ignored. -/
def restore (c : Cursor) (p : Checkpoint) : Cursor :=
  let moved := c.setPosition p.position
  if h : p.block ≤ c.blocks.length then { moved with block := p.block, block_le := h } else moved

end Cursor

end PegGrammar
