import PegGrammar.Cursor.Basic

/-!
# Coming back to a cursor

Whatever is done to a cursor leaves it in its text and only adds to the blocks that were opened. A
cursor that came about in this way extends the one it came from. Numbers of blocks are then still
good: the block of a number has the same blocks around it in every extension, because all blocks that
were added since have larger numbers. So a checkpoint brings an extension back to the same place with
the same blocks open, however many were opened and closed in between.
-/

namespace PegGrammar

namespace Block

theorem indentsFrom_of_suffix {old bs : List Block} {n : Nat} (hsuffix : old <:+ bs)
    (hnumbered : Numbered bs) (hn : n ≤ old.length) : indentsFrom n bs = indentsFrom n old := by
  obtain ⟨added, rfl⟩ := hsuffix
  induction added with
  | nil => rfl
  | cons b added ih =>
    have hnumber : b.number = (added ++ old).length + 1 := hnumbered.1
    have hne : b.number ≠ n := by
      rw [hnumber, List.length_append]
      omega
    rw [List.cons_append, indentsFrom, if_neg hne]
    exact ih hnumbered.2.2

end Block

namespace Cursor

/-- A cursor in the same text, in which at least the same blocks were opened. -/
structure Extends (c d : Cursor) : Prop where
  source : d.place.source = c.place.source
  blocks : c.blocks <:+ d.blocks

/-- A cursor that is where another one was, with the same blocks open. -/
structure Returns (c d : Cursor) : Prop where
  place : d.place = c.place
  block : d.block = c.block
  blocks : c.blocks <:+ d.blocks

theorem Extends.refl (c : Cursor) : c.Extends c := ⟨rfl, List.suffix_refl _⟩

theorem Extends.trans {c d e : Cursor} (hcd : c.Extends d) (hde : d.Extends e) : c.Extends e :=
  ⟨hde.source.trans hcd.source, hcd.blocks.trans hde.blocks⟩

theorem Returns.refl (c : Cursor) : c.Returns c := ⟨rfl, rfl, List.suffix_refl _⟩

theorem Returns.toExtends {c d : Cursor} (h : c.Returns d) : c.Extends d :=
  ⟨congrArg Place.source h.place, h.blocks⟩

theorem Returns.checkpoint_eq {c d : Cursor} (h : c.Returns d) : d.checkpoint = c.checkpoint := by
  rw [checkpoint, checkpoint, position, position, h.place, h.block]

/-- The open blocks depend on the number of the innermost one only. -/
theorem Extends.indents_eq {c d : Cursor} (h : c.Extends d) (hblock : d.block = c.block) :
    d.indents = c.indents := by
  rw [indents, indents, hblock, Block.indentsFrom_of_suffix h.blocks d.numbered c.block_le]

theorem Returns.indents_eq {c d : Cursor} (h : c.Returns d) : d.indents = c.indents :=
  h.toExtends.indents_eq h.block

/-- Nothing that a cursor shows is different: neither where it is nor which blocks are open. -/
def Unmoved (c d : Cursor) : Prop := d.checkpoint = c.checkpoint ∧ d.indents = c.indents

theorem Returns.unmoved {c d : Cursor} (h : c.Returns d) : c.Unmoved d :=
  ⟨h.checkpoint_eq, h.indents_eq⟩

/-! ### What a cursor can do -/

theorem extends_moveTo {c : Cursor} {p : Place} (h : p.source = c.place.source) :
    c.Extends (c.moveTo p) :=
  ⟨h, List.suffix_refl _⟩

theorem extends_setPosition (c : Cursor) (n : Nat) : c.Extends (c.setPosition n) :=
  extends_moveTo (Place.source_seek _ _)

theorem extends_advance (c : Cursor) (n : Nat) : c.Extends (c.advance n) := extends_setPosition c _

theorem extends_eat? {c d : Cursor} {text : String} (h : c.eat? text = some d) : c.Extends d := by
  rw [eat?, Option.map_eq_some_iff] at h
  obtain ⟨p, hp, rfl⟩ := h
  exact extends_moveTo (Place.eat?_eq_some hp).1

theorem extends_pushIndent (c : Cursor) (indent : String) : c.Extends (c.pushIndent indent) := by
  rw [pushIndent]
  split
  · exact ⟨rfl, List.suffix_refl _⟩
  · exact ⟨rfl, List.suffix_cons _ _⟩

theorem extends_popIndents (c : Cursor) (n : Nat) : c.Extends (c.popIndents n) := by
  induction n generalizing c with
  | zero => exact .refl c
  | succ n ih =>
    rw [popIndents]
    split
    · exact .refl c
    · have hpop : c.Extends c.popIndent := ⟨rfl, List.suffix_refl _⟩
      exact hpop.trans (ih c.popIndent)

theorem extends_restore (c : Cursor) (p : Checkpoint) : c.Extends (c.restore p) := by
  have hmoved := extends_setPosition c p.position
  rw [restore]
  split
  · exact ⟨hmoved.source, hmoved.blocks⟩
  · exact hmoved

/-- A checkpoint brings every extension back. -/
theorem Extends.returns_restore {c d : Cursor} (h : c.Extends d) :
    c.Returns (d.restore c.checkpoint) := by
  have hblock : c.checkpoint.block ≤ d.blocks.length :=
    Nat.le_trans c.block_le h.blocks.length_le
  have hplace : d.place.seek c.checkpoint.position = c.place := Place.seek_offset h.source
  rw [restore, dif_pos hblock]
  exact ⟨hplace, rfl, h.blocks⟩

end Cursor

end PegGrammar
