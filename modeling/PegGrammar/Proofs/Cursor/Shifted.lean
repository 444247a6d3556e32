import PegGrammar.Proofs.Cursor.Alike

/-!
# Texts with more in front

Put more text in front of a text, and a place in it stays between the same two characters: what was read is
longer, what follows is the same, and the offset is larger by the width of what was added. A cursor goes by what
follows and by its open blocks. So wherever one cursor goes, the other one goes too, and the two never lose the
distance that they had.
-/

namespace PegGrammar

/-- A place `p`, and the same place `q` in the text without what stands in front, the nearest character of that
first. -/
structure Place.Shifted (front : List Char) (p q : Place) : Prop where
  read : p.read = q.read ++ front
  rest : p.rest = q.rest

namespace Place

variable {front : List Char} {p q : Place}

theorem shifted_start (p : Place) : p.Shifted p.read (.start p.rest) := ⟨rfl, rfl⟩

theorem Shifted.offset (h : p.Shifted front q) : p.offset = byteLength front + q.offset := by
  rw [p.offset_eq, h.read, byteLength_append, q.offset_eq, Nat.add_comm]

theorem Shifted.source (h : p.Shifted front q) : p.source = front.reverse ++ q.source := by
  simp [Place.source, h.read, h.rest]

theorem Shifted.sourceLength (h : p.Shifted front q) :
    p.sourceLength = byteLength front + q.sourceLength := by
  rw [Place.sourceLength, Place.sourceLength, h.offset, h.rest, Nat.add_assoc]

theorem shifted_of_source (hsource : p.source = front.reverse ++ q.source)
    (hoffset : p.offset = byteLength front + q.offset) : p.Shifted front q := by
  let r : Place := ⟨q.read ++ front, q.rest, byteLength front + q.offset, by
    rw [byteLength_append, q.offset_eq, Nat.add_comm]⟩
  have hr : r.Shifted front q := ⟨rfl, rfl⟩
  have hpr : p = r := eq_of_source_of_offset (hsource.trans hr.source.symm) hoffset
  exact hpr ▸ hr

theorem Shifted.seek (h : p.Shifted front q) (n : Nat) :
    (p.seek (byteLength front + n)).Shifted front (q.seek n) := by
  apply shifted_of_source
  · rw [source_seek, source_seek, h.source]
  · rw [← byteLength_reverse front]
    exact offset_seek_add h.source n

theorem Shifted.eat? (h : p.Shifted front q) (text : List Char) :
    (Place.eat? text p = none ∧ Place.eat? text q = none) ∨
      ∃ p' q', Place.eat? text p = some p' ∧ Place.eat? text q = some q' ∧ p'.Shifted front q' := by
  induction text generalizing p q with
  | nil => exact .inr ⟨p, q, rfl, rfl, h⟩
  | cons c text ih =>
    rw [Place.eat?, Place.eat?, h.rest]
    split
    · exact .inl ⟨rfl, rfl⟩
    · rename_i d ds hrest
      split
      · apply ih
        constructor
        · simp [past, h.read]
        · rfl
      · exact .inl ⟨rfl, rfl⟩

theorem Shifted.textTo (h : p.Shifted front q) (stop : Nat) :
    p.textTo (byteLength front + stop) = q.textTo stop :=
  textTo_add h.rest h.offset stop

end Place

/-- A cursor, and the same cursor in the text without what stands in front: the same blocks are open. -/
structure Cursor.Shifted (front : List Char) (c d : Cursor) : Prop where
  place : c.place.Shifted front d.place
  opened : c.opened = d.opened

namespace Cursor.Shifted

variable {front : List Char} {c d : Cursor}

theorem position (h : c.Shifted front d) : c.position = byteLength front + d.position := h.place.offset

theorem length (h : c.Shifted front d) : c.length = byteLength front + d.length := h.place.sourceLength

theorem remaining (h : c.Shifted front d) : c.remaining = d.remaining := h.place.rest

theorem isDone (h : c.Shifted front d) : c.isDone = d.isDone := congrArg List.isEmpty h.place.rest

theorem indents (h : c.Shifted front d) : c.indents = d.indents := opened_eq_iff.2 h.opened

theorem innermost (h : c.Shifted front d) : c.innermost = d.innermost :=
  congrArg (List.headD · "") h.opened

theorem congr {c' d' : Cursor} (h : c.Shifted front d) (hc : c.Alike c') (hd : d.Alike d') :
    c'.Shifted front d' := by
  refine ⟨hc.place ▸ hd.place ▸ h.place, ?_⟩
  rw [← hc.opened, ← hd.opened, h.opened]

theorem setPosition (h : c.Shifted front d) (n : Nat) :
    (c.setPosition (byteLength front + n)).Shifted front (d.setPosition n) :=
  ⟨h.place.seek n, h.opened⟩

theorem advance (h : c.Shifted front d) (n : Nat) : (c.advance n).Shifted front (d.advance n) := by
  rw [Cursor.advance, Cursor.advance, h.position, Nat.add_assoc]
  exact h.setPosition _

theorem pushIndent (h : c.Shifted front d) (indent : String) :
    (c.pushIndent indent).Shifted front (d.pushIndent indent) := by
  constructor
  · rw [place_pushIndent, place_pushIndent]
    exact h.place
  · rw [opened_pushIndent, opened_pushIndent, h.opened]

theorem popIndents (h : c.Shifted front d) (n : Nat) :
    (c.popIndents n).Shifted front (d.popIndents n) := by
  constructor
  · rw [place_popIndents, place_popIndents]
    exact h.place
  · rw [opened_popIndents, opened_popIndents, h.opened]

theorem eat? (h : c.Shifted front d) (text : String) :
    (c.eat? text = none ∧ d.eat? text = none) ∨
      ∃ c' d', c.eat? text = some c' ∧ d.eat? text = some d' ∧ c'.Shifted front d' := by
  rw [Cursor.eat?, Cursor.eat?]
  rcases h.place.eat? text.toList with ⟨hc, hd⟩ | ⟨p, q, hc, hd, hpq⟩
  · simp [hc, hd]
  · exact .inr ⟨c.moveTo p, d.moveTo q, by simp [hc], by simp [hd], hpq, h.opened⟩

theorem textBetween (h : c.Shifted front d) (start stop : Nat) :
    c.textBetween (byteLength front + start) (byteLength front + stop) = d.textBetween start stop :=
  (h.place.seek start).textTo stop

/-- Later cursors come back to where the earlier ones were. -/
theorem restore {c' d' : Cursor} (h : c.Shifted front d) (hc : c.Extends c') (hd : d.Extends d') :
    (c'.restore c.checkpoint).Shifted front (d'.restore d.checkpoint) :=
  h.congr hc.returns_restore.alike hd.returns_restore.alike

end Cursor.Shifted

end PegGrammar
