import PegGrammar.Proofs.Cursor.Extension

/-!
# Cursors that look alike

Two runs on one text need not open the same blocks at the same time, so the numbers of their blocks may
differ when nothing else does. Cursors at one place with the same indentations look alike. Numbers are not
shown, so whatever a cursor offers tells no difference between them and leaves them alike. To see this, the
open blocks are followed as a list, innermost first: opening one puts an indentation in front, and closing
some takes as many away.
-/

namespace PegGrammar

namespace Block

theorem Numbered.parent_lt {bs : List Block} (h : Numbered bs) {block : Block} (hmem : block ∈ bs) :
    block.parent < block.number := by
  induction bs with
  | nil => cases hmem
  | cons b bs ih =>
    rcases List.mem_cons.1 hmem with rfl | hmem
    · exact h.2.1
    · exact ih h.2.2 hmem

theorem indentsFrom_zero {bs : List Block} (h : Numbered bs) : indentsFrom 0 bs = [] := by
  induction bs with
  | nil => rfl
  | cons b bs ih =>
    have hne : b.number ≠ 0 := h.1 ▸ Nat.succ_ne_zero _
    rw [indentsFrom, if_neg hne]
    exact ih h.2.2

theorem indentsFrom_parentOf {bs : List Block} (h : Numbered bs) (n : Nat) :
    indentsFrom (parentOf n bs) bs = (indentsFrom n bs).tail := by
  induction bs with
  | nil => rfl
  | cons b bs ih =>
    rw [parentOf, indentsFrom, indentsFrom]
    split
    · rw [if_neg (Nat.ne_of_gt h.2.1), List.tail_cons]
    · have hle := parentOf_le h.2.2 n
      have hnumber := h.1
      have hne : b.number ≠ parentOf n bs := by omega
      rw [if_neg hne]
      exact ih h.2.2

theorem indentsFrom_newest {bs : List Block} (h : Numbered bs) {n : Nat} {indent : String}
    (hnewest : bs.head?.any (fun b => b.parent = n ∧ b.indent = indent) = true) :
    indentsFrom bs.length bs = indent :: indentsFrom n bs := by
  cases bs with
  | nil => cases hnewest
  | cons b bs =>
    obtain ⟨rfl, rfl⟩ := of_decide_eq_true hnewest
    have hnumber : b.number = (b :: bs).length := h.1
    rw [indentsFrom, if_pos hnumber, indentsFrom, if_neg (Nat.ne_of_gt h.2.1)]

end Block

namespace Cursor

/-- The indentations of the open blocks, innermost first, without the outermost. -/
def opened (c : Cursor) : List String := Block.indentsFrom c.block c.blocks

theorem opened_eq_iff {c d : Cursor} : c.indents = d.indents ↔ c.opened = d.opened := by
  rw [indents, indents, List.cons.injEq, List.reverse_inj, opened, opened]
  exact and_iff_right rfl

theorem opened_pushIndent (c : Cursor) (indent : String) :
    (c.pushIndent indent).opened = indent :: c.opened := by
  rw [pushIndent]
  split
  · rename_i hsame
    change Block.indentsFrom c.blocks.length c.blocks = indent :: Block.indentsFrom c.block c.blocks
    exact Block.indentsFrom_newest c.numbered hsame
  · exact if_pos rfl

theorem opened_popIndent (c : Cursor) : c.popIndent.opened = c.opened.tail :=
  Block.indentsFrom_parentOf c.numbered c.block

theorem opened_popIndents (c : Cursor) (n : Nat) : (c.popIndents n).opened = c.opened.drop n := by
  induction n generalizing c with
  | zero => rfl
  | succ n ih =>
    rw [popIndents]
    split
    · rename_i hzero
      rw [opened, hzero, Block.indentsFrom_zero c.numbered, List.drop_nil]
    · rw [ih, opened_popIndent, List.drop_tail]

/-- A block that is opened comes last. -/
theorem indents_pushIndent (c : Cursor) (indent : String) :
    (c.pushIndent indent).indents = c.indents ++ [indent] := by
  have hopened := opened_pushIndent c indent
  rw [opened, opened] at hopened
  rw [indents, hopened, List.reverse_cons, indents, List.cons_append]

/-- The last `n` blocks are closed, of fewer all but the outermost. -/
theorem indents_popIndents (c : Cursor) (n : Nat) :
    (c.popIndents n).indents = c.indents.take (c.indents.length - min n (c.indents.length - 1)) := by
  have hopened := opened_popIndents c n
  rw [opened, opened] at hopened
  rw [indents, hopened, indents, List.reverse_drop]
  simp only [List.length_cons, List.length_reverse, Nat.add_sub_cancel]
  generalize (Block.indentsFrom c.block c.blocks).reverse = blocks
  rcases Nat.le_total n (Block.indentsFrom c.block c.blocks).length with hle | hle
  · rw [Nat.min_eq_left hle, Nat.succ_sub hle, List.take_succ_cons]
  · rw [Nat.min_eq_right hle, Nat.sub_eq_zero_of_le hle, Nat.succ_sub (Nat.le_refl _), Nat.sub_self]
    rfl

/-! ### Looking alike -/

/-- Cursors at one place, with the same indentations open. -/
structure Alike (c d : Cursor) : Prop where
  place : c.place = d.place
  opened : c.opened = d.opened

variable {c d : Cursor}

theorem Alike.refl (c : Cursor) : c.Alike c := ⟨rfl, rfl⟩

theorem Alike.symm (h : c.Alike d) : d.Alike c := ⟨h.place.symm, h.opened.symm⟩

theorem Alike.trans {e : Cursor} (hcd : c.Alike d) (hde : d.Alike e) : c.Alike e :=
  ⟨hcd.place.trans hde.place, hcd.opened.trans hde.opened⟩

theorem Returns.alike (h : c.Returns d) : c.Alike d :=
  ⟨h.place.symm, opened_eq_iff.1 h.indents_eq.symm⟩

theorem Alike.position (h : c.Alike d) : c.position = d.position := congrArg Place.offset h.place

theorem Alike.indents (h : c.Alike d) : c.indents = d.indents := opened_eq_iff.2 h.opened

theorem Alike.innermost (h : c.Alike d) : c.innermost = d.innermost :=
  congrArg (List.headD · "") h.opened

theorem Alike.moveTo (h : c.Alike d) (p : Place) : (c.moveTo p).Alike (d.moveTo p) := ⟨rfl, h.opened⟩

theorem Alike.setPosition (h : c.Alike d) (n : Nat) : (c.setPosition n).Alike (d.setPosition n) := by
  rw [Cursor.setPosition, Cursor.setPosition, h.place]
  exact h.moveTo _

theorem Alike.advance (h : c.Alike d) (n : Nat) : (c.advance n).Alike (d.advance n) := by
  rw [Cursor.advance, Cursor.advance, h.position]
  exact h.setPosition _

theorem place_pushIndent (c : Cursor) (indent : String) : (c.pushIndent indent).place = c.place := by
  rw [pushIndent]
  split <;> rfl

theorem place_popIndents (c : Cursor) (n : Nat) : (c.popIndents n).place = c.place := by
  induction n generalizing c with
  | zero => rfl
  | succ n ih =>
    rw [popIndents]
    split
    · rfl
    · exact ih c.popIndent

theorem Alike.pushIndent (h : c.Alike d) (indent : String) :
    (c.pushIndent indent).Alike (d.pushIndent indent) := by
  constructor
  · rw [place_pushIndent, place_pushIndent, h.place]
  · rw [opened_pushIndent, opened_pushIndent, h.opened]

theorem Alike.popIndents (h : c.Alike d) (n : Nat) : (c.popIndents n).Alike (d.popIndents n) := by
  constructor
  · rw [place_popIndents, place_popIndents, h.place]
  · rw [opened_popIndents, opened_popIndents, h.opened]

end Cursor

end PegGrammar
