import Mathlib.Data.List.Basic
import Mathlib.Data.List.TakeWhile
import Mathlib.Data.Prod.Lex
import Mathlib.Order.Bounds.Basic
import PegGrammar.CommandLine.Listing
import PegGrammar.Proofs.Cursor.Alike

/-!
# Lines and columns

Offsets count bytes and columns count characters, and an offset may lie inside of a character or behind the end. What
makes coordinates faithful all the same is that they are taken at places: an offset leads to the first place that is
not in front of it, and from one place to the next either the line grows, or the column does in the same line. So
coordinates keep the order of places, and different places have different ones.
-/

namespace PegGrammar

/-! ### Offsets between characters -/

theorem pairwise_offsets (n : Nat) (cs : List Char) : (offsets n cs).Pairwise (· < ·) := by
  have hle : ∀ (n : Nat) (cs : List Char), ∀ m ∈ offsets n cs, n ≤ m := by
    intro n cs
    induction cs generalizing n with
    | nil => simp [offsets]
    | cons c cs ih =>
      intro m hm
      rcases List.mem_cons.1 hm with rfl | hm
      · exact Nat.le_refl _
      · exact Nat.le_trans (Nat.le_add_right _ _) (ih _ m hm)
  induction cs generalizing n with
  | nil => exact List.pairwise_singleton _ _
  | cons c cs ih =>
    refine List.pairwise_cons.2 ⟨fun m hm => ?_, ih _⟩
    have := hle _ _ m hm
    have := c.utf8Size_pos
    omega

theorem mem_offsets_iff {a n : Nat} {cs : List Char} :
    a ∈ offsets n cs ↔ ∃ before after, cs = before ++ after ∧ a = n + byteLength before := by
  induction cs generalizing n with
  | nil => simp [offsets]
  | cons c cs ih =>
    rw [offsets, List.mem_cons, ih]
    constructor
    · rintro (rfl | ⟨before, after, rfl, rfl⟩)
      · exact ⟨[], c :: cs, rfl, rfl⟩
      · exact ⟨c :: before, after, rfl, by rw [byteLength_cons, Nat.add_assoc]⟩
    · rintro ⟨_ | ⟨d, before⟩, after, hcs, rfl⟩
      · exact .inl rfl
      · obtain ⟨rfl, rfl⟩ := List.cons.inj hcs
        exact .inr ⟨before, after, rfl, by rw [byteLength_cons, Nat.add_assoc]⟩

namespace Place

theorem exists_of_source {p : Place} {before after : List Char} (h : p.source = before ++ after) :
    ∃ q : Place, q.source = p.source ∧ q.read = before.reverse ∧ q.offset = byteLength before :=
  let q : Place := ⟨before.reverse, after, byteLength before, (byteLength_reverse before).symm⟩
  have hq : q.source = before ++ after := congrArg (· ++ after) (List.reverse_reverse before)
  ⟨q, hq.trans h.symm, rfl, rfl⟩

theorem exists_of_mem_offsets {p : Place} {a : Nat} (h : a ∈ offsets 0 p.source) :
    ∃ q : Place, q.source = p.source ∧ q.offset = a := by
  obtain ⟨before, after, hsource, rfl⟩ := mem_offsets_iff.1 h
  obtain ⟨q, hq, -, hoffset⟩ := exists_of_source hsource
  exact ⟨q, hq, hoffset.trans (Nat.zero_add _).symm⟩

/-- A seek leads to the first offset between characters that is not in front of what is sought. -/
theorem isLeast_offset_seek {p : Place} {n : Nat} (h : n ≤ byteLength p.source) :
    IsLeast {a | a ∈ offsets 0 p.source ∧ n ≤ a} (p.seek n).offset := by
  have hend : byteLength p.source ∈ offsets 0 p.source :=
    mem_offsets_iff.2 ⟨p.source, [], (List.append_nil _).symm, (Nat.zero_add _).symm⟩
  rw [offset_seek]
  cases hfound : (offsets 0 p.source).find? (n ≤ ·) with
  | none => exact absurd (decide_eq_true h) (List.find?_eq_none.1 hfound _ hend)
  | some a =>
    obtain ⟨hle, before, after, hsplit, hbefore⟩ := List.find?_eq_some_iff_append.1 hfound
    refine ⟨⟨List.mem_of_find?_eq_some hfound, of_decide_eq_true hle⟩, fun b ⟨hb, hn⟩ => ?_⟩
    have hsorted := pairwise_offsets 0 p.source
    rw [hsplit] at hb hsorted
    rcases List.mem_append.1 hb with hb | hb
    · simpa [hn] using hbefore b hb
    rcases List.mem_cons.1 hb with rfl | hb
    · exact Nat.le_refl _
    · exact Nat.le_of_lt ((List.pairwise_cons.1 (List.pairwise_append.1 hsorted).2.1).1 b hb)

/-! ### Coordinates of places -/

theorem lineCol_lt_past (p : Place) (c : Char) (cs : List Char) :
    toLex p.lineCol < toLex (p.past c cs).lineCol := by
  rw [Prod.Lex.toLex_lt_toLex, lineCol, lineCol, past]
  by_cases hc : c = '\n'
  · subst hc
    simp
  · simp [hc]

/-- Coordinates grow with the text that is read. -/
theorem lineCol_lt_of_offset_lt {p q : Place} (hsource : p.source = q.source) (hlt : p.offset < q.offset) :
    toLex p.lineCol < toLex q.lineCol := by
  obtain ⟨text, hrest, hoffset⟩ := exists_between hsource (Nat.le_of_lt hlt)
  induction text generalizing p with
  | nil =>
    rw [byteLength_nil] at hoffset
    omega
  | cons c text ih =>
    have hpast : (p.past c (text ++ q.rest)).source = q.source := (source_past p hrest).trans hsource
    have hnext : q.offset = (p.past c (text ++ q.rest)).offset + byteLength text := by
      rw [hoffset, byteLength_cons, past, Nat.add_assoc]
    have hstep := lineCol_lt_past p c (text ++ q.rest)
    cases text with
    | nil => rwa [eq_of_source_of_offset hpast hnext.symm] at hstep
    | cons d text =>
      have hpos := d.utf8Size_pos
      rw [byteLength_cons] at hnext
      exact hstep.trans (ih hpast (by omega) rfl (by rw [hnext, byteLength_cons]))

/-- The line counts the line feeds that were read, and the column the characters behind the last of them. -/
theorem lineCol_spec (p : Place) :
    p.lineCol.1 = p.read.reverse.count '\n' + 1 ∧
      ∃ lines last, p.read.reverse = lines ++ last ∧ (lines = [] ∨ ∃ before, lines = before ++ ['\n']) ∧
        '\n' ∉ last ∧ p.lineCol.2 = last.length + 1 := by
  refine ⟨by simp [lineCol], (p.read.dropWhile (· ≠ '\n')).reverse, (p.read.takeWhile (· ≠ '\n')).reverse, ?_,
    ?_, ?_, ?_⟩
  · rw [← List.reverse_append, List.takeWhile_append_dropWhile]
  · cases hdrop : p.read.dropWhile (· ≠ '\n') with
    | nil => exact .inl rfl
    | cons c cs =>
      have hhead := List.head?_dropWhile_not (· ≠ '\n') p.read
      rw [hdrop] at hhead
      have hc : c = '\n' := by simpa using hhead
      exact .inr ⟨cs.reverse, by rw [List.reverse_cons, hc]⟩
  · intro hmem
    simpa using List.mem_takeWhile_imp (List.mem_reverse.1 hmem)
  · simp [lineCol]

end Place

/-! ### Coordinates of offsets -/

theorem toString_colon_inj {l c l' c' : Nat}
    (h : toString l ++ ":" ++ toString c = toString l' ++ ":" ++ toString c') : l = l' ∧ c = c' := by
  have hdigits : ∀ n : Nat, ':' ∉ (toString n).toList := by
    intro n hmem
    rw [Nat.toString_eq_ofList_toDigits, String.toList_ofList] at hmem
    have hdigit := Nat.isDigit_of_mem_toDigits (by decide) (by decide) hmem
    cases hdigit
  have hnumber : ∀ {n m : Nat}, (toString n).toList = (toString m).toList → n = m := by
    intro n m heq
    have hread := congrArg (Nat.ofDigitChars 10 · 0) heq
    simpa [Nat.toString_eq_ofList_toDigits] using hread
  have hsplit : ∀ l c : Nat,
      (toString l ++ ":" ++ toString c).toList = (toString l).toList ++ ':' :: (toString c).toList := by
    intro l c
    simp
  have hlists := congrArg String.toList h
  rw [hsplit, hsplit, List.append_cons_inj_of_notMem (hdigits _) (hdigits _)] at hlists
  exact ⟨hnumber hlists.1, hnumber hlists.2.2⟩

namespace Cursor

theorem lineCol_offset {c : Cursor} {p : Place} (h : p.source = c.place.source) :
    c.lineCol p.offset = p.lineCol := by
  rw [lineCol, Place.seek_offset h.symm]

theorem lineCol_lt {c : Cursor} {a b : Nat} (ha : a ∈ offsets 0 c.place.source)
    (hb : b ∈ offsets 0 c.place.source) (hlt : a < b) : toLex (c.lineCol a) < toLex (c.lineCol b) := by
  obtain ⟨p, hp, rfl⟩ := Place.exists_of_mem_offsets ha
  obtain ⟨q, hq, rfl⟩ := Place.exists_of_mem_offsets hb
  rw [lineCol_offset hp, lineCol_offset hq]
  exact Place.lineCol_lt_of_offset_lt (hp.trans hq.symm) hlt

theorem lineCol_offset_seek (c : Cursor) (n : Nat) : c.lineCol (c.place.seek n).offset = c.lineCol n :=
  lineCol_offset (c.place.source_seek n)

theorem length_eq_byteLength (c : Cursor) : c.length = byteLength c.place.source :=
  (c.place.byteLength_source).symm

theorem offset_seek_of_length_le {c : Cursor} {n : Nat} (h : c.length ≤ n) :
    (c.place.seek n).offset = c.length := by
  rw [length_eq_byteLength] at h ⊢
  rw [Place.offset_seek]
  cases hfound : (offsets 0 c.place.source).find? (n ≤ ·) with
  | none => rfl
  | some a =>
    have hle : n ≤ a := by simpa using List.find?_some hfound
    obtain ⟨before, after, hsource, rfl⟩ := mem_offsets_iff.1 (List.mem_of_find?_eq_some hfound)
    rw [hsource, byteLength_append] at h ⊢
    change 0 + byteLength before = _
    omega

/-- Line and column are faithful coordinates of a text, whatever cursor they are asked of. Offsets between characters
have coordinates in their order, line first. Any other offset has those of the next one between characters, or of the
end. Behind some text, the line is one more than the line feeds in it, and the column is one more than the characters
behind the last of them. So different offsets between characters are also shown differently. -/
theorem lineCol_faithful (c : Cursor) :
    (∀ a ∈ offsets 0 c.place.source, ∀ b ∈ offsets 0 c.place.source, a < b →
      toLex (c.lineCol a) < toLex (c.lineCol b)) ∧
    (∀ n ≤ c.length, ∃ a, IsLeast {a | a ∈ offsets 0 c.place.source ∧ n ≤ a} a ∧ c.lineCol n = c.lineCol a) ∧
    (∀ n, c.length ≤ n → c.lineCol n = c.lineCol c.length) ∧
    (∀ before after line column, c.place.source = before ++ after →
      c.lineCol (byteLength before) = (line, column) → before.count '\n' + 1 = line ∧
        ∃ lines last, before = lines ++ last ∧ (lines = [] ∨ ∃ front, lines = front ++ ['\n']) ∧
          '\n' ∉ last ∧ last.length + 1 = column) ∧
    ∀ a ∈ offsets 0 c.place.source, ∀ b ∈ offsets 0 c.place.source,
      CommandLine.shownPlace c a = CommandLine.shownPlace c b → a = b := by
  refine ⟨fun a ha b hb hlt => lineCol_lt ha hb hlt, fun n hn => ?_, fun n hn => ?_, ?_, ?_⟩
  · exact ⟨_, Place.isLeast_offset_seek (c.length_eq_byteLength ▸ hn), (c.lineCol_offset_seek n).symm⟩
  · rw [← offset_seek_of_length_le hn, lineCol_offset_seek]
  · intro before after line column hsource hcoordinates
    obtain ⟨p, hp, hread, hoffset⟩ := Place.exists_of_source hsource
    rw [← hoffset, lineCol_offset hp] at hcoordinates
    have hspec := p.lineCol_spec
    rw [hcoordinates, hread, List.reverse_reverse] at hspec
    obtain ⟨hline, lines, last, hsplit, hlines, hlast, hcolumn⟩ := hspec
    exact ⟨hline.symm, lines, last, hsplit, hlines, hlast, hcolumn.symm⟩
  · intro a ha b hb hshown
    obtain ⟨hline, hcolumn⟩ := toString_colon_inj hshown
    have hsame : c.lineCol a = c.lineCol b := Prod.ext hline hcolumn
    rcases Nat.lt_trichotomy a b with hlt | heq | hlt
    · exact absurd (lineCol_lt ha hb hlt) (hsame ▸ lt_irrefl _)
    · exact heq
    · exact absurd (lineCol_lt hb ha hlt) (hsame ▸ lt_irrefl _)

/-- Of a text with characters of two bytes and of one, also behind the line feed: an offset inside of a character has
the coordinates of the one behind it. -/
theorem lineCol_faithful_umlauts :
    2 ∈ offsets 0 "ä\nöu".toList ∧ 5 ∈ offsets 0 "ä\nöu".toList ∧
      toLex ((start "ä\nöu").lineCol 2) < toLex ((start "ä\nöu").lineCol 5) ∧
      (start "ä\nöu").lineCol 4 = (2, 2) ∧ (start "ä\nöu").lineCol 9 = (start "ä\nöu").lineCol 6 ∧
      CommandLine.shownPlace (start "ä\nöu") 2 ≠ CommandLine.shownPlace (start "ä\nöu") 5 := by
  have h2 : 2 ∈ offsets 0 "ä\nöu".toList := by decide
  have h5 : 5 ∈ offsets 0 "ä\nöu".toList := by decide
  obtain ⟨hordered, -, hbehind, -, hshown⟩ := lineCol_faithful (start "ä\nöu")
  refine ⟨h2, h5, hordered 2 h2 5 h5 (by decide), by decide, hbehind 9 (by decide), fun h => ?_⟩
  exact absurd (hshown 2 h2 5 h5 h) (by decide)

end Cursor

end PegGrammar
