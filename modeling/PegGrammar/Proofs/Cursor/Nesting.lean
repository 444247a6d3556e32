import Mathlib.Data.List.Chain
import Mathlib.Data.List.Nodup
import PegGrammar.Proofs.Cursor.Alike

/-!
# Blocks inside of blocks

A block that is opened where the indentation of its lines goes on behind that of the innermost block is more deeply
indented than every block around it. Blocks are kept for good, each with the number of the one around it, so this is
asked of every block that was ever opened, and then holds of the blocks that are open, whichever they are: of those
that were closed and come back with a checkpoint too.
-/

namespace PegGrammar

namespace Block

/-- An indentation goes on behind another. -/
def Inside (outer inner : String) : Prop := outer.toList <+: inner.toList ∧ outer ≠ inner

theorem Inside.trans {a b c : String} (hab : Inside a b) (hbc : Inside b c) : Inside a c := by
  refine ⟨hab.1.trans hbc.1, ?_⟩
  rintro rfl
  exact hbc.2 (String.toList_injective (hbc.1.eq_of_length_le hab.1.length_le))

instance : Trans Inside Inside Inside := ⟨Inside.trans⟩

instance : Std.Irrefl Inside := ⟨fun _ h => h.2 rfl⟩

/-- An indentation is made of spaces and tabs. -/
def IsBlank (indent : String) : Prop := ∀ c ∈ indent.toList, c = ' ' ∨ c = '\t'

/-- The indentations of blocks that lie inside of each other, the outermost first. -/
structure Nested (indents : List String) : Prop where
  outermost : indents.head? = some ""
  blank : ∀ indent ∈ indents, IsBlank indent
  inside : indents.IsChain Inside

theorem Nested.nodup {indents : List String} (h : Nested indents) : indents.Nodup :=
  h.inside.pairwise.nodup

theorem nested_singleton : Nested [""] where
  outermost := rfl
  blank := by simp [IsBlank]
  inside := .singleton ""

theorem Nested.concat {indents : List String} (h : Nested indents) {inner : String} (hblank : IsBlank inner)
    (hinside : Inside (indents.getLastD "") inner) : Nested (indents ++ [inner]) where
  outermost := by rw [List.head?_append, h.outermost, Option.some_or]
  blank := List.forall_mem_append.2 ⟨h.blank, List.forall_mem_singleton.2 hblank⟩
  inside := by
    refine List.isChain_append.2 ⟨h.inside, .singleton inner, ?_⟩
    intro outer houter _ hinner
    cases hinner
    rw [List.getLastD_eq_getLast?, Option.mem_def.1 houter] at hinside
    exact hinside

/-- Every block that was ever opened goes on behind the one around it. -/
def Deepening : List Block → Prop
  | [] => True
  | b :: older => IsBlank b.indent ∧ Inside ((indentsFrom b.parent older).headD "") b.indent ∧ Deepening older

theorem Deepening.nested {bs : List Block} (h : Deepening bs) (n : Nat) :
    Nested ("" :: (indentsFrom n bs).reverse) := by
  induction bs generalizing n with
  | nil => exact nested_singleton
  | cons b older ih =>
    obtain ⟨hblank, hinside, holder⟩ := h
    rw [indentsFrom]
    split
    · rw [List.reverse_cons, ← List.cons_append]
      refine (ih holder b.parent).concat hblank ?_
      cases hparent : indentsFrom b.parent older with
      | nil => rwa [hparent] at hinside
      | cons outer around =>
        rw [List.reverse_cons, ← List.cons_append, List.getLastD_concat]
        rwa [hparent] at hinside
    · exact ih holder n

end Block

namespace Cursor

/-- Every block that was ever opened in the text goes on behind the one around it. -/
def Deepening (c : Cursor) : Prop := Block.Deepening c.blocks

theorem deepening_start (text : String) : (start text).Deepening := trivial

theorem Deepening.nested {c : Cursor} (h : c.Deepening) : Block.Nested c.indents := Block.Deepening.nested h c.block

theorem Deepening.moveTo {c : Cursor} (h : c.Deepening) (p : Place) : (c.moveTo p).Deepening := h

theorem Deepening.eat? {c d : Cursor} (h : c.Deepening) {text : String} (heat : c.eat? text = some d) :
    d.Deepening := by
  obtain ⟨p, -, rfl⟩ := Option.map_eq_some_iff.1 heat
  exact h

theorem blocks_restore (c : Cursor) (p : Checkpoint) : (c.restore p).blocks = c.blocks := by
  rw [restore]
  split <;> rfl

theorem Deepening.restore {c : Cursor} (h : c.Deepening) (p : Checkpoint) : (c.restore p).Deepening := by
  rw [Deepening, blocks_restore]
  exact h

theorem blocks_popIndents (c : Cursor) (n : Nat) : (c.popIndents n).blocks = c.blocks := by
  induction n generalizing c with
  | zero => rfl
  | succ n ih =>
    rw [popIndents]
    split
    · rfl
    · exact ih c.popIndent

theorem Deepening.popIndents {c : Cursor} (h : c.Deepening) (n : Nat) : (c.popIndents n).Deepening := by
  rw [Deepening, blocks_popIndents]
  exact h

/-- A block is opened by an indentation that goes on behind the innermost. -/
theorem Deepening.pushIndent {c : Cursor} (h : c.Deepening) {indent : String} (hblank : Block.IsBlank indent)
    (hinside : Block.Inside c.innermost indent) : (c.pushIndent indent).Deepening := by
  rw [Cursor.pushIndent]
  split
  · exact h
  · exact ⟨hblank, hinside, h⟩

end Cursor

end PegGrammar
