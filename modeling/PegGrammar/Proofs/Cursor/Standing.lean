import PegGrammar.Proofs.Cursor.Alike

/-!
# What stands between two offsets

The value of a token is right if it is what stands in the text between the offsets of the token. A text stands
there if the source can be cut in three with that text in the middle, so that both offsets lie between
characters. What two places of a text have between them stands there, and what a cursor moves past does.
-/

namespace PegGrammar

/-- A text stands between two offsets of a source. -/
def Stands (source : List Char) (start stop : Nat) (text : String) : Prop :=
  ∃ before after, source = before ++ text.toList ++ after ∧ byteLength before = start ∧
    start + byteLength text.toList = stop

theorem Stands.le {source : List Char} {start stop : Nat} {text : String}
    (h : Stands source start stop text) : start ≤ stop := by
  obtain ⟨_, _, -, -, hstop⟩ := h
  omega

namespace Place

theorem stands_behind {p : Place} {before text rest : List Char} (h : p.rest = before ++ text ++ rest) :
    Stands p.source (p.offset + byteLength before) (p.offset + byteLength before + byteLength text)
      (String.ofList text) := by
  refine ⟨p.read.reverse ++ before, rest, ?_, ?_, ?_⟩
  · rw [source, h, String.toList_ofList]
    simp only [List.append_assoc]
  · rw [byteLength_append, byteLength_reverse, p.offset_eq]
  · rw [String.toList_ofList]

theorem stands_of_rest {p : Place} {text rest : List Char} (h : p.rest = text ++ rest) :
    Stands p.source p.offset (p.offset + byteLength text) (String.ofList text) :=
  stands_behind (show p.rest = [] ++ text ++ rest from h)

theorem stands_empty (p : Place) : Stands p.source p.offset p.offset "" :=
  stands_of_rest (show p.rest = [] ++ p.rest from rfl)

/-- The text from one place to another stands between them. -/
theorem stands_textTo {p q : Place} (hsource : p.source = q.source) (hle : p.offset ≤ q.offset) :
    Stands p.source p.offset q.offset (p.textTo q.offset) := by
  obtain ⟨text, hrest, hoffset⟩ := exists_between hsource hle
  rw [hoffset, textTo_of_rest hrest]
  exact stands_of_rest hrest

end Place

namespace Cursor

theorem position_le_advance (c : Cursor) (n : Nat) : c.position ≤ (c.advance n).position :=
  Place.le_offset_seek (Nat.le_add_right _ _)

theorem position_setPosition_of_rest {c : Cursor} {p : Place} {text rest : List Char}
    (hplace : c.place = p) (h : p.rest = text ++ rest) :
    (c.setPosition (p.offset + byteLength text)).position = p.offset + byteLength text := by
  obtain ⟨q, hsource, hoffset⟩ := Place.exists_behind h
  show (c.place.seek (p.offset + byteLength text)).offset = p.offset + byteLength text
  rw [hplace, ← hoffset, Place.seek_offset hsource.symm]

theorem stands_eat? {c d : Cursor} {text : String} (h : c.eat? text = some d) :
    Stands c.place.source c.position d.position text := by
  rw [eat?, Option.map_eq_some_iff] at h
  obtain ⟨q, hq, rfl⟩ := h
  obtain ⟨hsource, hrest⟩ := Place.eat?_eq_some hq
  have hwidth : byteLength c.place.source = byteLength q.source := by rw [hsource]
  rw [Place.byteLength_source, Place.byteLength_source, hrest, byteLength_append] at hwidth
  have hstop : (c.moveTo q).position = c.place.offset + byteLength text.toList := by
    show q.offset = _
    omega
  have hstands := Place.stands_of_rest hrest
  rw [String.ofList_toList] at hstands
  rw [hstop]
  exact hstands

theorem Extends.stands_textBetween {c d : Cursor} (h : c.Extends d) (hle : c.position ≤ d.position) :
    Stands c.place.source c.position d.position (d.textBetween c.position d.position) := by
  have hseek : d.place.seek c.position = c.place := Place.seek_offset h.source
  rw [textBetween, hseek]
  exact Place.stands_textTo h.source.symm hle

end Cursor

end PegGrammar
