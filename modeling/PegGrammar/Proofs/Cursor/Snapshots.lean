import PegGrammar.Proofs.Cursor.Standing

/-!
# Cursors and their snapshots

A cursor keeps every block that was ever opened and opens the newest one again where it can, and a checkpoint
is no more than two numbers. To whoever uses it, it is a position and a list of indentations of which any
earlier version can be had back. So a plain machine that holds just these, and keeps whole copies as its
snapshots, goes through the same positions and indentations under every sequence of moves.

To compare them, a checkpoint is taken to show what a restore would bring back now. No move changes what the
checkpoints show that were taken before it, since a cursor is only ever extended.
-/

namespace PegGrammar

namespace Cursor

/-- What can be done to a cursor. Checkpoints are numbered in the order in which they are taken. -/
inductive Move where
  | setPosition (n : Nat)
  | advance (n : Nat)
  | eat (text : String)
  | pushIndent (indent : String)
  | popIndents (n : Nat)
  | checkpoint
  | restore (number : Nat)
  deriving DecidableEq, Repr

/-! ### The plain machine -/

/-- A position, and the indentations of the open blocks, outermost first. -/
structure Snapshot where
  position : Nat
  indents : List String
  deriving DecidableEq, Repr

/-- Where a plain machine is, and the copies that it made so far. -/
structure Plain where
  now : Snapshot
  kept : List Snapshot
  deriving DecidableEq, Repr

namespace Plain

def start : Plain := ⟨⟨0, [""]⟩, []⟩

/-- The first offset between two characters that is at least `n`, or the end of a shorter text. -/
def clamp (source : List Char) (n : Nat) : Nat :=
  ((offsets 0 source).find? (n ≤ ·)).getD (byteLength source)

/-- What is left of a text behind byte offset `n`. -/
def behind : Nat → List Char → List Char
  | _, [] => []
  | n, c :: cs => if n = 0 then c :: cs else behind (n - c.utf8Size) cs

def step (source : List Char) (s : Plain) : Move → Plain
  | .setPosition n => { s with now.position := clamp source n }
  | .advance n => { s with now.position := clamp source (s.now.position + n) }
  | .eat text =>
    if text.toList.isPrefixOf (behind s.now.position source) then
      { s with now.position := s.now.position + byteLength text.toList }
    else s
  | .pushIndent indent => { s with now.indents := s.now.indents ++ [indent] }
  | .popIndents n =>
    { s with now.indents := s.now.indents.take (s.now.indents.length - min n (s.now.indents.length - 1)) }
  | .checkpoint => { s with kept := s.kept ++ [s.now] }
  | .restore number => { s with now := s.kept[number]?.getD s.now }

def run (source : List Char) (s : Plain) (moves : List Move) : Plain := moves.foldl (step source) s

theorem behind_append (before rest : List Char) : behind (byteLength before) (before ++ rest) = rest := by
  induction before with
  | nil => cases rest <;> rfl
  | cons c before ih =>
    have hpos := c.utf8Size_pos
    have hne : byteLength (c :: before) ≠ 0 := by
      rw [byteLength_cons]
      omega
    rw [List.cons_append, behind, if_neg hne, byteLength_cons, Nat.add_sub_cancel_left, ih]

theorem behind_offset (p : Place) : behind p.offset p.source = p.rest := by
  have hbehind := behind_append p.read.reverse p.rest
  rwa [byteLength_reverse, ← p.offset_eq] at hbehind

end Plain

/-! ### What a cursor shows -/

def shown (c : Cursor) : Snapshot := ⟨c.position, c.indents⟩

theorem shown_setPosition (c : Cursor) (n : Nat) :
    (c.setPosition n).shown = ⟨Plain.clamp c.place.source n, c.indents⟩ :=
  congrArg (Snapshot.mk · c.indents) (c.place.offset_seek n)

theorem shown_pushIndent (c : Cursor) (indent : String) :
    (c.pushIndent indent).shown = ⟨c.position, c.indents ++ [indent]⟩ := by
  rw [shown, position, place_pushIndent, indents_pushIndent]
  rfl

theorem shown_popIndents (c : Cursor) (n : Nat) :
    (c.popIndents n).shown =
      ⟨c.position, c.indents.take (c.indents.length - min n (c.indents.length - 1))⟩ := by
  rw [shown, position, place_popIndents, indents_popIndents]
  rfl

theorem shown_eat (c : Cursor) (text : String) :
    ((c.eat? text).getD c).shown =
      if text.toList.isPrefixOf (Plain.behind c.position c.place.source) then
        ⟨c.position + byteLength text.toList, c.indents⟩
      else c.shown := by
  have heaten : (c.eat? text).isSome = text.toList.isPrefixOf (Plain.behind c.position c.place.source) := by
    rw [eat?, Option.isSome_map, Place.isSome_eat?, position, Plain.behind_offset]
  rw [← heaten]
  cases heat : c.eat? text with
  | none => rfl
  | some moved =>
    obtain ⟨_, _, -, -, hstop⟩ := stands_eat? heat
    have hindents : moved.indents = c.indents := by
      rw [eat?, Option.map_eq_some_iff] at heat
      obtain ⟨q, -, rfl⟩ := heat
      rfl
    rw [Option.getD_some, shown, ← hstop, hindents]
    rfl

/-- Whatever happened to a cursor since, a checkpoint brings back what it showed. -/
theorem Extends.shown_restore {c d : Cursor} (h : c.Extends d) : (d.restore c.checkpoint).shown = c.shown := by
  have hreturns := h.returns_restore
  rw [shown, hreturns.indents_eq, position, hreturns.place]
  rfl

/-! ### A cursor and its checkpoints -/

/-- A cursor and the checkpoints that were taken of it so far. -/
structure History where
  cursor : Cursor
  taken : List Checkpoint

namespace History

def start (text : String) : History := ⟨.start text, []⟩

def step (h : History) : Move → History
  | .setPosition n => { h with cursor := h.cursor.setPosition n }
  | .advance n => { h with cursor := h.cursor.advance n }
  | .eat text => { h with cursor := (h.cursor.eat? text).getD h.cursor }
  | .pushIndent indent => { h with cursor := h.cursor.pushIndent indent }
  | .popIndents n => { h with cursor := h.cursor.popIndents n }
  | .checkpoint => { h with taken := h.taken ++ [h.cursor.checkpoint] }
  | .restore number => { h with cursor := (h.taken[number]?.map h.cursor.restore).getD h.cursor }

def run (h : History) (moves : List Move) : History := moves.foldl step h

/-- What is seen of a cursor and its checkpoints: where the cursor is, and where each of them leads. -/
def view (h : History) : Plain :=
  ⟨h.cursor.shown, h.taken.map fun checkpoint => (h.cursor.restore checkpoint).shown⟩

/-- The checkpoints were taken of cursors from which the present one came. -/
structure Kept (source : List Char) (h : History) : Prop where
  source_eq : h.cursor.place.source = source
  taken : ∀ checkpoint ∈ h.taken, ∃ c : Cursor, c.Extends h.cursor ∧ c.checkpoint = checkpoint

variable {source : List Char} {h : History}

theorem extends_step (h : History) (move : Move) : h.cursor.Extends (h.step move).cursor := by
  cases move with
  | setPosition n => exact extends_setPosition _ n
  | advance n => exact extends_advance _ n
  | eat text =>
    rw [step]
    cases heat : h.cursor.eat? text with
    | none => exact .refl _
    | some moved => exact extends_eat? heat
  | pushIndent indent => exact extends_pushIndent _ indent
  | popIndents n => exact extends_popIndents _ n
  | checkpoint => exact .refl _
  | restore number =>
    rw [step]
    cases h.taken[number]? with
    | none => exact .refl _
    | some checkpoint => exact extends_restore _ checkpoint

theorem mem_taken_step {move : Move} {checkpoint : Checkpoint} (hmem : checkpoint ∈ (h.step move).taken) :
    checkpoint ∈ h.taken ∨ checkpoint = h.cursor.checkpoint := by
  cases move with
  | checkpoint => exact (List.mem_append.1 hmem).imp_right List.mem_singleton.1
  | _ => exact .inl hmem

theorem Kept.step (hkept : h.Kept source) (move : Move) : (h.step move).Kept source where
  source_eq := (extends_step h move).source.trans hkept.source_eq
  taken := fun _ hmem => by
    rcases mem_taken_step hmem with hmem | rfl
    · obtain ⟨c, hextends, hcheckpoint⟩ := hkept.taken _ hmem
      exact ⟨c, hextends.trans (extends_step h move), hcheckpoint⟩
    · exact ⟨h.cursor, extends_step h move, rfl⟩

theorem Kept.shown_restore (hkept : h.Kept source) {d : Cursor} (hextends : h.cursor.Extends d) :
    (h.taken.map fun checkpoint => (d.restore checkpoint).shown) = h.view.kept := by
  refine List.map_congr_left fun checkpoint hmem => ?_
  obtain ⟨c, hc, rfl⟩ := hkept.taken checkpoint hmem
  rw [(hc.trans hextends).shown_restore, hc.shown_restore]

/-- One move of a cursor is one move of the plain machine. -/
theorem Kept.view_step (hkept : h.Kept source) (move : Move) : (h.step move).view = h.view.step source move := by
  have hleads := hkept.shown_restore (extends_step h move)
  cases move with
  | setPosition n =>
    have hnow := shown_setPosition h.cursor n
    rw [hkept.source_eq] at hnow
    exact congr (congrArg Plain.mk hnow) hleads
  | advance n =>
    have hnow := shown_setPosition h.cursor (h.cursor.position + n)
    rw [hkept.source_eq] at hnow
    exact congr (congrArg Plain.mk hnow) hleads
  | eat text =>
    have hnow := shown_eat h.cursor text
    rw [hkept.source_eq] at hnow
    refine (congr (congrArg Plain.mk hnow) hleads).trans ?_
    show _ = if text.toList.isPrefixOf (Plain.behind h.cursor.position source) then _ else _
    split <;> rfl
  | pushIndent indent => exact congr (congrArg Plain.mk (shown_pushIndent h.cursor indent)) hleads
  | popIndents n => exact congr (congrArg Plain.mk (shown_popIndents h.cursor n)) hleads
  | checkpoint =>
    have hown := (Extends.refl h.cursor).shown_restore
    rw [History.step, view, List.map_append, List.map_singleton, hown]
    rfl
  | restore number =>
    refine congr (congrArg Plain.mk ?_) hleads
    rw [History.step, view, List.getElem?_map]
    cases h.taken[number]? <;> rfl

theorem Kept.run (hkept : h.Kept source) (moves : List Move) :
    (h.run moves).Kept source ∧ (h.run moves).view = h.view.run source moves := by
  induction moves generalizing h with
  | nil => exact ⟨hkept, rfl⟩
  | cons move moves ih =>
    obtain ⟨hkept', hview⟩ := ih (hkept.step move)
    rw [hkept.view_step move] at hview
    exact ⟨hkept', hview⟩

theorem kept_start (text : String) : (start text).Kept text.toList :=
  ⟨rfl, fun _ hmem => by cases hmem⟩

theorem run_append (h : History) (before after : List Move) :
    h.run (before ++ after) = (h.run before).run after :=
  List.foldl_append

theorem extends_run (h : History) (moves : List Move) : h.cursor.Extends (h.run moves).cursor := by
  induction moves generalizing h with
  | nil => exact .refl _
  | cons move moves ih => exact (extends_step h move).trans (ih (h.step move))

theorem taken_prefix_run (h : History) (moves : List Move) : h.taken <+: (h.run moves).taken := by
  induction moves generalizing h with
  | nil => exact List.prefix_refl _
  | cons move moves ih =>
    have hstep : h.taken <+: (h.step move).taken := by
      cases move with
      | checkpoint => exact List.prefix_append _ _
      | _ => exact List.prefix_refl _
    exact hstep.trans (ih (h.step move))

/-- A checkpoint brings back what was shown when it was taken, whatever was done since. -/
theorem shown_run_restore (h : History) (after : List Move) :
    (h.run (.checkpoint :: after ++ [.restore h.taken.length])).cursor.shown = h.cursor.shown := by
  have hextends : h.cursor.Extends (h.run (.checkpoint :: after)).cursor := extends_run h _
  have htaken : (h.run (.checkpoint :: after)).taken[h.taken.length]? = some h.cursor.checkpoint := by
    obtain ⟨later, hlater⟩ := taken_prefix_run (h.step .checkpoint) after
    show ((h.step .checkpoint).run after).taken[h.taken.length]? = _
    rw [← hlater, History.step, List.append_assoc, List.getElem?_append_right (Nat.le_refl _),
      Nat.sub_self]
    rfl
  rw [run_append]
  show ((h.run (.checkpoint :: after)).step (.restore h.taken.length)).cursor.shown = _
  rw [History.step, htaken]
  exact hextends.shown_restore

end History

/-- A cursor with its checkpoints is a position and a list of indentations with copies. Under every sequence of
moves it shows what the plain machine shows, and its checkpoints lead to what that copied: opening a block
appends an indentation, closing some drops as many but never the outermost, and coming back brings back both
where the cursor was and what was open there. The position never lies outside of the text or inside of a
character, the outermost block is not indented, and a block lies in one that was opened before it. -/
theorem history_refines_plain (text : String) :
    (∀ moves,
      ((History.start text).run moves).view = Plain.start.run text.toList moves ∧
      ((History.start text).run moves).cursor.position ∈ offsets 0 text.toList ∧
      ((History.start text).run moves).cursor.position ≤ text.utf8ByteSize ∧
      ((History.start text).run moves).cursor.indents.head? = some "" ∧
      ∀ block ∈ ((History.start text).run moves).cursor.blocks, block.parent < block.number) ∧
    ∀ before after,
      ((History.start text).run (before ++
        (.checkpoint :: after ++ [.restore ((History.start text).run before).taken.length]))).cursor.shown =
      ((History.start text).run before).cursor.shown := by
  refine ⟨fun moves => ?_, fun before after => ?_⟩
  · obtain ⟨hkept, hview⟩ := (History.kept_start text).run moves
    generalize (History.start text).run moves = h at hkept hview ⊢
    have hsource : h.cursor.place.source = text.toList := hkept.source_eq
    refine ⟨hview, ?_, ?_, rfl, fun block hmem => h.cursor.numbered.parent_lt hmem⟩
    · exact hsource ▸ h.cursor.place.offset_mem_offsets
    · rw [← byteLength_toList, ← hsource, Place.byteLength_source]
      exact Nat.le_add_right _ _
  · rw [History.run_append]
    exact History.shown_run_restore _ after

end Cursor

end PegGrammar
