import Mathlib
import PegGrammar.Pattern.Basic
import PegGrammar.Program.Run
import PegGrammar.Proofs.Cursor.Standing

/-!
# Where matches begin

A pattern is put behind the assertion that the text starts, and between parentheses of its own. As long as these
hold it together, every match begins where the cursor is. A closing parenthesis in the pattern can end the group
early, and what follows it is then outside. That does no harm unless it is another alternative, because the
assertion is the first item of the first one: whatever is read behind it, it stays there.
-/

namespace PegGrammar

namespace Pattern

/-! ### Searching goes forward -/

/-- A place of the same text that is not in front of another. -/
structure Ahead (start place : Place) : Prop where
  source : place.source = start.source
  offset_le : start.offset ≤ place.offset

theorem Ahead.refl (p : Place) : Ahead p p := ⟨rfl, Nat.le_refl _⟩

theorem Ahead.past {start p : Place} (h : Ahead start p) {c : Char} {cs : List Char}
    (hrest : p.rest = c :: cs) : Ahead start (p.past c cs) :=
  ⟨(Place.source_past p hrest).trans h.source, Nat.le_trans h.offset_le (Nat.le_add_right _ _)⟩

theorem Step.ahead_of_mem_next {start : Place} {step : Step} {p : PlaceIn start} {next : Nat × PlaceIn start}
    (hp : Ahead start p.val) (h : next ∈ step.next p) : Ahead start next.2.val := by
  cases step with
  | stop => cases h
  | char c on =>
    rw [Step.next] at h
    split at h
    · cases h
    · rename_i d ds hrest
      split at h
      · rw [List.mem_singleton.1 h]
        exact hp.past hrest
      · cases h
  | set members on =>
    rw [Step.next] at h
    split at h
    · cases h
    · rename_i d ds hrest
      split at h
      · rw [List.mem_singleton.1 h]
        exact hp.past hrest
      · cases h
  | look l on =>
    rw [Step.next] at h
    split at h
    · rw [List.mem_singleton.1 h]
      exact hp
    · cases h
  | fork first second =>
    simp only [Step.next, List.mem_cons, List.not_mem_nil, or_false] at h
    rcases h with rfl | rfl
    all_goals exact hp

/-- What holds of all that is to be tried, and is kept by every step, holds of the places where a search stops. -/
theorem Machine.holds_of_mem_search {m : Machine} {firstOnly : Bool} {start : Place} {P : Nat → Place → Prop}
    (hnext : ∀ s step, m.steps[s]? = some step → ∀ p : PlaceIn start, P s p.val →
      ∀ next ∈ step.next p, P next.1 next.2.val)
    {seen : Std.HashSet Nat} {found : List Place} {tasks : List (Nat × PlaceIn start)}
    (hfound : ∀ p ∈ found, ∃ s, m.steps[s]? = some .stop ∧ P s p) (htasks : ∀ task ∈ tasks, P task.1 task.2.val) :
    ∀ p ∈ m.search firstOnly start seen found tasks, ∃ s, m.steps[s]? = some .stop ∧ P s p := by
  induction seen, found, tasks using Machine.search.induct m firstOnly start with
  | case1 seen found =>
    rw [search]
    exact fun p hp => hfound p (List.mem_reverse.1 hp)
  | case2 seen found s p tasks hs hseen ih =>
    rw [search, dif_pos hs, dif_pos hseen]
    exact ih hfound (List.forall_mem_cons.1 htasks).2
  | case3 seen found s p tasks hs hnew hstop hfirst =>
    rw [search, dif_pos hs, dif_neg hnew]
    dsimp only
    rw [hstop]
    dsimp only
    rw [if_pos hfirst]
    obtain ⟨hp, -⟩ := List.forall_mem_cons.1 htasks
    have hall : ∀ q ∈ p.val :: found, ∃ s, m.steps[s]? = some .stop ∧ P s q :=
      List.forall_mem_cons.2 ⟨⟨s, hstop ▸ Array.getElem?_eq_getElem hs, hp⟩, hfound⟩
    exact fun q hq => hall q (List.mem_reverse.1 hq)
  | case4 seen found s p tasks hs hnew seen' hstop hmore ih =>
    rw [search, dif_pos hs, dif_neg hnew]
    dsimp only
    rw [hstop]
    dsimp only
    rw [if_neg hmore]
    obtain ⟨hp, hrest⟩ := List.forall_mem_cons.1 htasks
    exact ih (List.forall_mem_cons.2 ⟨⟨s, hstop ▸ Array.getElem?_eq_getElem hs, hp⟩, hfound⟩) hrest
  | case5 seen found s p tasks hs hnew seen' hstep ih =>
    rw [search, dif_pos hs, dif_neg hnew]
    dsimp only
    obtain ⟨hp, hrest⟩ := List.forall_mem_cons.1 htasks
    have hahead := hnext s m.steps[s] (Array.getElem?_eq_getElem hs) p hp
    split
    · rename_i hstop
      exact (hstep hstop).elim
    · exact ih hfound (List.forall_mem_append.2 ⟨hahead, hrest⟩)
  | case6 seen found s p tasks hs ih =>
    rw [search, dif_neg hs]
    exact ih hfound (List.forall_mem_cons.1 htasks).2

theorem Machine.holds_of_matchAt? {m : Machine} {p stop : Place} {P : Nat → Place → Prop}
    (hnext : ∀ s step, m.steps[s]? = some step → ∀ q : PlaceIn p, P s q.val →
      ∀ next ∈ step.next q, P next.1 next.2.val)
    (hentry : P m.entry p) (h : m.matchAt? p = some stop) : ∃ s, m.steps[s]? = some .stop ∧ P s stop :=
  holds_of_mem_search hnext (List.forall_mem_nil _) (List.forall_mem_singleton.2 hentry) stop (List.mem_of_head? h)

theorem Machine.ahead_of_matchAt? {m : Machine} {p stop : Place} (h : m.matchAt? p = some stop) :
    Ahead p stop := by
  obtain ⟨-, -, hahead⟩ := holds_of_matchAt? (P := fun _ => Ahead p)
    (fun _ _ _ _ hq _ hmem => Step.ahead_of_mem_next hq hmem) (.refl p) h
  exact hahead

/-- From a step on, the first character that is taken is one of some. -/
inductive Machine.Takes (m : Machine) (cs : List Char) : Nat → Prop
  | char {s next : Nat} {c : Char} : m.steps[s]? = some (.char c next) → c ∈ cs → Takes m cs s
  | look {s next : Nat} {l : Look} : m.steps[s]? = some (.look l next) → Takes m cs next → Takes m cs s
  | fork {s first second : Nat} : m.steps[s]? = some (.fork first second) → Takes m cs first → Takes m cs second →
      Takes m cs s

/-- No match is empty if a character is taken first, and it begins with that character. -/
theorem Machine.Takes.head {m : Machine} {cs : List Char} (h : m.Takes cs m.entry) {p stop : Place}
    (hmatch : m.matchAt? p = some stop) : ∃ c ∈ cs, [c] <+: p.rest := by
  have hnext : ∀ s step, m.steps[s]? = some step → ∀ q : PlaceIn p,
      (m.Takes cs s ∧ q.val = p ∨ ∃ c ∈ cs, [c] <+: p.rest) → ∀ next ∈ step.next q,
        m.Takes cs next.1 ∧ next.2.val = p ∨ ∃ c ∈ cs, [c] <+: p.rest := by
    rintro s step hstep q (⟨htakes, hq⟩ | hbegun) next hmem
    · cases htakes with
      | @char _ on c hchar hc =>
        cases hstep.symm.trans hchar
        rw [Step.next] at hmem
        split at hmem
        · cases hmem
        · rename_i d ds hrest
          split at hmem
          · rename_i heq
            exact .inr ⟨c, hc, ds, by rw [← hq, hrest, heq]; rfl⟩
          · cases hmem
      | look hlook hon =>
        cases hstep.symm.trans hlook
        rw [Step.next] at hmem
        split at hmem
        · rw [List.mem_singleton.1 hmem]
          exact .inl ⟨hon, hq⟩
        · cases hmem
      | fork hfork hfirst hsecond =>
        cases hstep.symm.trans hfork
        rcases List.mem_cons.1 hmem with rfl | hmem
        · exact .inl ⟨hfirst, hq⟩
        · rw [List.mem_singleton.1 hmem]
          exact .inl ⟨hsecond, hq⟩
    · exact .inr hbegun
  obtain ⟨s, hstop, ⟨htakes, -⟩ | hbegun⟩ := holds_of_matchAt?
    (P := fun s q => m.Takes cs s ∧ q = p ∨ ∃ c ∈ cs, [c] <+: p.rest) hnext (.inl ⟨h, rfl⟩) hmatch
  · cases htakes with
    | char hstep | look hstep | fork hstep => cases hstop.symm.trans hstep
  · exact hbegun

/-! ### The leftmost match -/

theorem Machine.findFrom?_of_matchAt? {m : Machine} {p stop : Place} (h : m.matchAt? p = some stop) :
    m.findFrom? p = some (p, stop) := by
  rw [findFrom?, h]

/-- What is found is a match that starts where the search does, or later. -/
theorem Machine.findFrom?_eq_some {m : Machine} {p start stop : Place}
    (h : m.findFrom? p = some (start, stop)) :
    m.matchAt? start = some stop ∧ (start = p ∨ p.offset < start.offset) := by
  induction p using findFrom?.induct m with
  | case1 p _ hmatch =>
    rw [findFrom?_of_matchAt? hmatch] at h
    cases h
    exact ⟨hmatch, .inl rfl⟩
  | case2 p hmatch hrest =>
    rw [findFrom?, hmatch] at h
    dsimp only at h
    split at h
    · cases h
    · rename_i hcons
      cases hrest.symm.trans hcons
  | case3 p hmatch c cs hrest ih =>
    rw [findFrom?, hmatch] at h
    dsimp only at h
    split at h
    · cases h
    · rename_i d ds hcons
      cases hrest.symm.trans hcons
      obtain ⟨hstart, hplace⟩ := ih h
      have hpast : p.offset < (p.past c cs).offset := Nat.lt_add_of_pos_right c.utf8Size_pos
      refine ⟨hstart, .inr ?_⟩
      rcases hplace with rfl | hlater
      · exact hpast
      · exact Nat.lt_trans hpast hlater

/-- The leftmost match from a place on, if it begins there, is the match there. -/
theorem Machine.findFrom?_filter (m : Machine) (p : Place) :
    (m.findFrom? p).filter (fun found => found.1.offset == p.offset) = (m.matchAt? p).map (p, ·) := by
  cases hmatch : m.matchAt? p with
  | some stop =>
    rw [findFrom?_of_matchAt? hmatch]
    simp
  | none =>
    rw [Option.map_none, Option.filter_eq_none_iff]
    rintro ⟨start, stop⟩ hfound hposition
    obtain ⟨hstart, rfl | hlater⟩ := findFrom?_eq_some hfound
    · cases hmatch.symm.trans hstart
    · exact Nat.ne_of_gt hlater (beq_iff_eq.1 hposition)

theorem Look.holds_textStart {p : Place} (hp : 0 < p.offset) : textStart.holds p = false := by
  cases hread : p.read with
  | nil =>
    rw [p.offset_eq, hread] at hp
    exact (Nat.lt_irrefl 0 hp).elim
  | cons c read => simp [holds, hread]

theorem Machine.matchAt?_enter_textStart (m : Machine) {p : Place} (hp : 0 < p.offset) :
    (m.enter (.look .textStart m.entry)).matchAt? p = none := by
  have hentry : (m.enter (.look .textStart m.entry)).entry <
      (m.enter (.look .textStart m.entry)).steps.size := by
    simp [enter]
  have hstep : (m.enter (.look .textStart m.entry)).steps[(m.enter (.look .textStart m.entry)).entry] =
      .look .textStart m.entry := Array.getElem_push_eq
  have hnext : Step.next (.look .textStart m.entry) (⟨p, rfl⟩ : PlaceIn p) = [] := by
    rw [Step.next, Look.holds_textStart hp, if_neg Bool.false_ne_true]
  rw [matchAt?, search, dif_pos hentry, dif_neg (by simp)]
  dsimp only
  rw [hstep]
  dsimp only
  rw [hnext, List.append_nil, search]
  rfl

theorem Node.machine_of_startsAtText {node : Node} (h : node.startsAtText = true) :
    ∃ m : Machine, node.machine = m.enter (.look .textStart m.entry) := by
  rw [startsAtText.eq_def] at h
  split at h
  · exact ⟨⟨#[.stop], 0⟩, rfl⟩
  · rename_i items
    cases items with
    | nil => exact ⟨⟨#[.stop], 0⟩, rfl⟩
    | cons item items => exact ⟨buildAll (item :: items) ⟨#[.stop], 0⟩, rfl⟩
  · cases h

theorem Node.matchAt?_of_startsAtText {node : Node} (h : node.startsAtText = true) {p : Place}
    (hp : 0 < p.offset) : node.machine.matchAt? p = none := by
  obtain ⟨m, hm⟩ := machine_of_startsAtText h
  rw [hm]
  exact m.matchAt?_enter_textStart hp

/-- A pattern that is tried at the start of a text only, and takes one of some characters first, matches where one
of them stands. -/
theorem head_of_match? {pattern : Pattern} (hlooks : pattern.looksBehind = false)
    (hstarts : pattern.tree.startsAtText = true) {cs : List Char}
    (htakes : pattern.machine.Takes cs pattern.machine.entry) {c : Cursor} {result : String × Cursor}
    (h : pattern.match? c = some result) : ∃ first ∈ cs, [first] <+: c.remaining := by
  rw [match?, hlooks, if_neg Bool.false_ne_true, find?, if_pos hstarts] at h
  obtain ⟨found, hfound, -⟩ := Option.map_eq_some_iff.1 h
  obtain ⟨stop, hmatch, -⟩ := Option.map_eq_some_iff.1 hfound
  have hhead : ∃ first ∈ cs, [first] <+: (Place.start c.remaining).rest := htakes.head hmatch
  exact hhead

theorem find?_eq_findFrom? (pattern : Pattern) (text : List Char) :
    pattern.find? text = pattern.machine.findFrom? (.start text) := by
  rw [find?]
  split
  · rename_i hstarts
    cases hmatch : pattern.machine.matchAt? (.start text) with
    | some stop =>
      rw [Machine.findFrom?_of_matchAt? hmatch]
      rfl
    | none =>
      symm
      rw [Option.map_none, Option.eq_none_iff_forall_ne_some]
      rintro ⟨start, stop⟩ hfound
      obtain ⟨hstart, rfl | hlater⟩ := Machine.findFrom?_eq_some hfound
      · cases hmatch.symm.trans hstart
      · rw [pattern.machine_eq, Node.matchAt?_of_startsAtText hstarts hlater] at hstart
        cases hstart
  · rfl

/-- Where matches are looked for: in the whole text, or in what is left as if that were the whole. -/
def sought (pattern : Pattern) (c : Cursor) : Place :=
  if pattern.looksBehind then c.place else .start c.remaining

/-- A pattern matches with the leftmost match from the cursor on. One that looks behind is turned down if that
match begins later. -/
theorem match?_eq_findFrom? (pattern : Pattern) (c : Cursor) :
    pattern.match? c =
      ((pattern.machine.findFrom? (pattern.sought c)).filter
        (fun found => !pattern.looksBehind || found.1.offset == c.position)).map
          (fun (start, stop) => (start.textTo stop.offset, c.advance (stop.offset - start.offset))) := by
  rw [match?, sought]
  cases pattern.looksBehind with
  | false =>
    rw [if_neg Bool.false_ne_true, if_neg Bool.false_ne_true, find?_eq_findFrom?]
    cases pattern.machine.findFrom? (.start c.remaining) <;> rfl
  | true =>
    rw [if_pos rfl, if_pos rfl]
    change _ = ((pattern.machine.findFrom? c.place).filter
      (fun found => found.1.offset == c.place.offset)).map _
    rw [Machine.findFrom?_filter, Option.map_map]
    rfl

/-! ### Reading what is behind the assertion -/

/-- The assertion in front of a pattern. -/
def caret : Part := .flat (.look .textStart)

/-- An outermost group in which something was read behind the assertion, or that has alternatives. -/
def Group.Anchored (g : Group) : Prop := g.branches ≠ [] ∨ ∃ part items, g.items = part :: items ++ [caret]

/-- A reader whose outermost group has the assertion in front. -/
def Reading.Anchored (r : Reading) : Prop :=
  match r.outer.getLast? with
  | none => r.group.Anchored
  | some outermost => outermost.branches ≠ [] ∨ ∃ items, outermost.items = items ++ [caret]

theorem Group.Anchored.add {g : Group} (h : g.branches ≠ [] ∨ ∃ items, g.items = items ++ [caret])
    (part : Part) : (g.add part).Anchored := by
  refine h.imp_right ?_
  rintro ⟨items, hitems⟩
  exact ⟨part, items, congrArg (part :: ·) hitems⟩

theorem Group.Anchored.begins {g : Group} (h : g.Anchored) :
    g.branches ≠ [] ∨ ∃ items, g.items = items ++ [caret] := by
  refine h.imp_right ?_
  rintro ⟨part, items, hitems⟩
  exact ⟨part :: items, hitems⟩

theorem Reading.Anchored.group {r : Reading} (h : r.Anchored) {g : Group}
    (hg : r.group.Anchored → g.Anchored) : ({ r with group := g } : Reading).Anchored := by
  rw [Anchored] at h ⊢
  dsimp only
  split
  · rename_i hnone
    rw [hnone] at h
    exact hg h
  · rename_i outermost hsome
    rw [hsome] at h
    exact h

theorem Reading.Anchored.opened {r : Reading} (h : r.Anchored) (g : Group) (names : List (List Char))
    (numbered : Nat) : (⟨g, r.group :: r.outer, names, numbered⟩ : Reading).Anchored := by
  rw [Anchored] at h ⊢
  dsimp only
  cases houter : r.outer with
  | nil =>
    rw [houter] at h
    exact Group.Anchored.begins h
  | cons around outer =>
    rw [houter] at h
    rw [List.getLast?_cons_cons]
    exact h

theorem Reading.Anchored.closed {r : Reading} (h : r.Anchored) {around : Group} {outer : List Group}
    (houter : r.outer = around :: outer) (part : Part) :
    ({ r with group := around.add part, outer } : Reading).Anchored := by
  rw [Anchored, houter] at h
  rw [Anchored]
  dsimp only
  cases outer with
  | nil => exact Group.Anchored.add h part
  | cons next outer =>
    rw [List.getLast?_cons_cons] at h
    exact h

theorem Group.Anchored.repeated {g g' : Group} (h : g.Anchored) {min : Nat} {max : Option Nat}
    {rest rest' : List Char} (hrepeat : repeatLast? g min max rest = some (g', rest')) : g'.Anchored := by
  rw [repeatLast?.eq_def] at hrepeat
  split at hrepeat
  · cases hrepeat
  rename_i last items hitems
  split at hrepeat
  · cases hrepeat
    refine h.imp_right ?_
    rintro ⟨part, init, hinit⟩
    rw [hitems, List.cons_append, List.cons.injEq] at hinit
    exact ⟨_, init, congrArg (_ :: ·) hinit.2⟩
  · cases hrepeat

/-- Whatever is read, the assertion stays in front. -/
theorem Reading.Anchored.step {edition : Edition} {r r' : Reading} {c : Char} {cs rest : List Char}
    (h : r.Anchored) (hstep : step? edition r c cs = some (r', rest)) : r'.Anchored := by
  have hadd : ∀ part, r.group.Anchored → (r.group.add part).Anchored :=
    fun part hg => Group.Anchored.add hg.begins part
  have hrepeat : ∀ {min max rest'}, ((repeatLast? r.group min max rest').map
      (fun change => ({ r with group := change.1 }, change.2))) = some (r', rest) → r'.Anchored := by
    intro min max rest' hsome
    obtain ⟨⟨g, rest''⟩, hg, heq⟩ := Option.map_eq_some_iff.1 hsome
    cases heq
    exact h.group fun hgroup => hgroup.repeated hg
  rw [step?.eq_def] at hstep
  dsimp only at hstep
  split at hstep
  · split at hstep
    · cases hstep
    · cases hstep
      exact h.group fun hg => hadd _ hg
    · cases hstep
      exact h.opened _ _ _
    · split at hstep
      · cases hstep
      · cases hstep
        exact h.opened _ _ _
  · split at hstep
    · cases hstep
    · rename_i around outer houter
      cases hstep
      exact h.closed houter _
  · cases hstep
    exact h.group fun _ => .inl (List.cons_ne_nil _ _)
  · obtain ⟨⟨found, rest'⟩, -, hsome⟩ := Option.bind_eq_some_iff.1 hstep
    cases hsome
    exact h.group (hadd _)
  · exact hrepeat hstep
  · exact hrepeat hstep
  · exact hrepeat hstep
  · obtain ⟨⟨min, max, rest'⟩, -, hsome⟩ := Option.bind_eq_some_iff.1 hstep
    exact hrepeat hsome
  · obtain ⟨⟨node, rest'⟩, -, hsome⟩ := Option.bind_eq_some_iff.1 hstep
    cases hsome
    exact h.group (hadd _)

theorem Node.startsAtText_sequence (nodes : List Node) :
    (sequence (.look .textStart :: nodes)).startsAtText = true := by
  cases nodes <;> rfl

theorem Node.exists_choice_of_oneOf {nodes : List Node} (h : 2 ≤ nodes.length) :
    ∃ branches, oneOf nodes = .choice branches := by
  match nodes, h with
  | first :: second :: nodes, _ => exact ⟨_, rfl⟩

theorem Group.Anchored.whole {g : Group} (h : g.Anchored) :
    g.whole.node.startsAtText = true ∨ ∃ branches, g.whole.node = .choice branches := by
  rw [Group.whole.eq_def]
  split
  · rename_i hbranches
    obtain ⟨part, items, hitems⟩ := h.resolve_left (fun hne => hne hbranches)
    left
    rw [branch, hitems]
    simp only [List.reverse_append, List.reverse_singleton, List.singleton_append, List.map_cons]
    exact Node.startsAtText_sequence _
  · rename_i hbranches
    right
    apply Node.exists_choice_of_oneOf
    cases hcases : g.branches with
    | nil => exact (hbranches hcases).elim
    | cons first branches => simp

theorem Reading.Anchored.read {edition : Edition} {steps : Nat} {r : Reading} {cs : List Char} {whole : Part}
    (h : r.Anchored) (hread : readFrom edition steps r cs = some whole) :
    whole.node.startsAtText = true ∨ ∃ branches, whole.node = .choice branches := by
  induction steps generalizing r cs with
  | zero => cases hread
  | succ steps ih =>
    rw [readFrom] at hread
    split at hread
    · split at hread
      · rename_i houter
        cases hread
        rw [Anchored, List.isEmpty_iff.1 houter] at h
        exact Group.Anchored.whole h
      · cases hread
    · split at hread
      · rename_i r' rest hstep
        exact ih (h.step hstep) hread
      · cases hread

theorem readFrom_cons {edition : Edition} {r r' : Reading} {c : Char} {cs rest : List Char}
    (hspaced : r.group.flags.spaced = false) (hstep : step? edition r c cs = some (r', rest)) (steps : Nat) :
    readFrom edition (steps + 1) r (c :: cs) = readFrom edition steps r' rest := by
  have hblanks : dropBlanks r.group.flags (c :: cs) = c :: cs := by
    rw [dropBlanks, hspaced]
    rfl
  rw [readFrom, hblanks]
  dsimp only
  rw [hstep]

/-- A reader of what stands between the parentheses in which a dot matches line feeds. -/
def inside (around : Group) : Reading := ⟨.start { Flags.initial with dotAll := true } none, [around], [], 0⟩

theorem step?_inside {around : Group} (hflags : around.flags = .initial) (cs : List Char) :
    step? .full ⟨around, [], [], 0⟩ '(' ('?' :: 's' :: ':' :: cs) = some (inside around, cs) := by
  obtain ⟨branches, items, flags, number⟩ := around
  cases hflags
  rfl

theorem toList_dotAll (source : String) :
    (dotAll source).toList = '(' :: '?' :: 's' :: ':' :: (source.toList ++ [')']) := by
  simp [dotAll, String.toList_append]

theorem readFrom_dotAll (source : String) :
    readFrom .full ((dotAll source).toList.length + 1) ⟨.start .initial none, [], [], 0⟩ (dotAll source).toList =
      readFrom .full ((source.toList ++ [')']).length + 4) (inside (.start .initial none))
        (source.toList ++ [')']) := by
  rw [toList_dotAll]
  exact readFrom_cons rfl (step?_inside rfl _) _

theorem readFrom_anchored (source : String) :
    readFrom .full ((anchored source).toList.length + 1) ⟨.start .initial none, [], [], 0⟩
        (anchored source).toList =
      readFrom .full ((source.toList ++ [')']).length + 4) (inside ((Group.start .initial none).add caret))
        (source.toList ++ [')']) := by
  have htext : (anchored source).toList = '^' :: (dotAll source).toList := by
    simp [anchored, String.toList_append]
  have hcaret : ∀ cs, step? .full ⟨.start .initial none, [], [], 0⟩ '^' cs =
      some (⟨(Group.start .initial none).add caret, [], [], 0⟩, cs) := fun _ => rfl
  rw [htext, List.length_cons, readFrom_cons rfl (hcaret _), toList_dotAll, List.length_cons,
    readFrom_cons rfl (step?_inside rfl _)]
  rfl

theorem startsAtText_of_anchored {source : String} {tree : Node}
    (h : parse? .full (anchored source) = some tree) :
    tree.startsAtText = true ∨ ∃ branches, tree = .choice branches := by
  obtain ⟨whole, hread, hdepth⟩ := Option.bind_eq_some_iff.1 h
  split at hdepth
  · cases hdepth
    rw [readFrom_anchored] at hread
    have hgroup : (inside ((Group.start .initial none).add caret)).Anchored := Or.inr ⟨[], rfl⟩
    exact hgroup.read hread
  · cases hdepth

theorem parse?_of_ofString? {source : String} {pattern : Pattern} (h : ofString? source = some pattern)
    (hlooks : pattern.looksBehind = false) : parse? .full (anchored source) = some pattern.tree := by
  obtain ⟨tree, htree, hpattern⟩ := Option.bind_eq_some_iff.1 h
  cases hpattern
  dsimp only at hlooks ⊢
  rw [hlooks, if_neg Bool.false_ne_true, tree?, Option.filter_eq_some_iff] at htree
  exact htree.1

theorem startsAtText_of_ofString? {source : String} {pattern : Pattern} (h : ofString? source = some pattern)
    (hlooks : pattern.looksBehind = false) (hchoice : ∀ branches, pattern.tree ≠ .choice branches) :
    pattern.tree.startsAtText = true := by
  rcases startsAtText_of_anchored (parse?_of_ofString? h hlooks) with hstarts | ⟨branches, hbranches⟩
  · exact hstarts
  · exact (hchoice branches hbranches).elim

/-- A match of a pattern that is held together, or that looks behind, begins where it is looked for. -/
theorem found_of_match? {pattern : Pattern} {c moved : Cursor} {value : String}
    (hstarts : pattern.looksBehind = true ∨ pattern.tree.startsAtText = true)
    (h : pattern.match? c = some (value, moved)) :
    ∃ stop, pattern.machine.findFrom? (pattern.sought c) = some (pattern.sought c, stop) ∧
      value = (pattern.sought c).textTo stop.offset ∧
      moved = c.advance (stop.offset - (pattern.sought c).offset) := by
  rw [match?_eq_findFrom?] at h
  obtain ⟨⟨start, stop⟩, hfiltered, heq⟩ := Option.map_eq_some_iff.1 h
  obtain ⟨hfound, hposition⟩ := Option.filter_eq_some_iff.1 hfiltered
  cases heq
  obtain ⟨hstart, rfl | hlater⟩ := Machine.findFrom?_eq_some hfound
  · exact ⟨stop, hfound, rfl, rfl⟩
  · cases hlooks : pattern.looksBehind with
    | true =>
      rw [sought, hlooks, if_pos rfl] at hlater
      rw [hlooks, Bool.not_true, Bool.false_or, beq_iff_eq] at hposition
      exact (Nat.ne_of_gt hlater hposition).elim
    | false =>
      rw [hlooks] at hstarts
      have hnone := Node.matchAt?_of_startsAtText (hstarts.resolve_left Bool.false_ne_true)
        (Nat.zero_lt_of_lt hlater)
      rw [pattern.machine_eq, hnone] at hstart
      cases hstart

theorem stands_of_found {pattern : Pattern} {c : Cursor} {stop : Place}
    (h : pattern.machine.findFrom? (pattern.sought c) = some (pattern.sought c, stop)) :
    Stands c.place.source c.position (c.advance (stop.offset - (pattern.sought c).offset)).position
      ((pattern.sought c).textTo stop.offset) := by
  have hahead := Machine.ahead_of_matchAt? (Machine.findFrom?_eq_some h).1
  rw [sought] at hahead ⊢
  split at hahead
  · have hposition : (c.advance (stop.offset - c.position)).position = stop.offset := by
      show (c.place.seek (c.place.offset + (stop.offset - c.place.offset))).offset = stop.offset
      rw [Nat.add_sub_cancel' hahead.offset_le, Place.seek_offset hahead.source.symm]
    rw [if_pos ‹_›]
    change Stands _ _ (c.advance (stop.offset - c.position)).position _
    rw [hposition]
    exact Place.stands_textTo hahead.source.symm hahead.offset_le
  · rw [if_neg ‹_›]
    obtain ⟨text, hrest, hoffset⟩ := Place.exists_between hahead.source.symm hahead.offset_le
    change c.remaining = text ++ stop.rest at hrest
    have hwidth : stop.offset - (Place.start c.remaining).offset = byteLength text := by
      rw [hoffset, Nat.add_sub_cancel_left]
    have hposition : (c.advance (byteLength text)).position = c.position + byteLength text :=
      Cursor.position_setPosition_of_rest rfl hrest
    have hvalue : (Place.start c.remaining).textTo stop.offset = String.ofList text := by
      rw [hoffset]
      exact Place.textTo_of_rest hrest
    rw [hwidth, hposition, hvalue]
    exact Place.stands_of_rest hrest

theorem match?_of_found {pattern : Pattern} {c : Cursor} {start stop : Place}
    (hlooks : pattern.looksBehind = false)
    (h : pattern.machine.findFrom? (pattern.sought c) = some (start, stop)) :
    pattern.match? c = some (start.textTo stop.offset, c.advance (stop.offset - start.offset)) := by
  rw [match?_eq_findFrom?, h, hlooks]
  rfl

theorem exists_of_parse? (source : String) {tree : Node}
    (hlooks : ((parse? .classic (dotAll source)).map Node.looksBehind).getD false = false)
    (htree : parse? .full (anchored source) = some tree) (hfits : tree.fits = true) :
    ∃ pattern, ofString? source = some pattern ∧ pattern.looksBehind = false ∧ pattern.tree = tree := by
  refine ⟨⟨source, false, tree, tree.machine, rfl⟩, ?_, rfl, rfl⟩
  rw [ofString?, hlooks, if_neg Bool.false_ne_true, tree?, htree, Option.filter_some, if_pos hfits]
  rfl

end Pattern

namespace Program

theorem regexStep_of_match? {pattern : Pattern} {s : Running} {value : String} {moved : Cursor}
    (h : pattern.match? s.cursor = some (value, moved)) :
    regexStep pattern s = (some [.leaf regexKind value s.position moved.position],
      ((s.reached s.position).movedTo moved).reached moved.position) := by
  have htried : pattern.match? (s.reached s.position).cursor = some (value, moved) := h
  rw [regexStep, htried]

/-- The leftmost match begins at the cursor, and its token has the text that was passed, if the pattern is held
together by the parentheses around it, so that there are no alternatives outside of them, or looks behind. -/
theorem regex_starts_at_cursor {source : String} {pattern : Pattern}
    (hpattern : Pattern.ofString? source = some pattern)
    (hwhole : pattern.looksBehind = true ∨ ∀ branches, pattern.tree ≠ .choice branches)
    {s next : Running} {tokens : Chain} (h : regexStep pattern s = (some tokens, next)) :
    (∃ stop, pattern.machine.findFrom? (pattern.sought s.cursor) = some (pattern.sought s.cursor, stop)) ∧
    ∃ value, tokens = [.leaf regexKind value s.position next.position] ∧
      Stands s.cursor.place.source s.position next.position value := by
  have hstarts : pattern.looksBehind = true ∨ pattern.tree.startsAtText = true := by
    cases hlooks : pattern.looksBehind with
    | true => exact .inl rfl
    | false =>
      rw [hlooks] at hwhole
      exact .inr (Pattern.startsAtText_of_ofString? hpattern hlooks
        (hwhole.resolve_left Bool.false_ne_true))
  rw [regexStep] at h
  split at h
  · cases h
  · rename_i value moved hmatch
    cases h
    obtain ⟨stop, hfound, rfl, rfl⟩ := Pattern.found_of_match? hstarts hmatch
    exact ⟨⟨stop, hfound⟩, _, rfl, Pattern.stands_of_found hfound⟩

theorem regex_starts_at_cursor_letters :
    ∃ pattern, Pattern.ofString? "x|y" = some pattern ∧ (∀ branches, pattern.tree ≠ .choice branches) ∧
      (regexStep pattern (.start (.start "yz"))).1 = some [.leaf regexKind "y" 0 1] ∧
      (∃ stop, pattern.machine.findFrom? (pattern.sought (.start "yz")) =
        some (pattern.sought (.start "yz"), stop)) ∧
      Stands "yz".toList 0 1 "y" := by
  obtain ⟨pattern, hpattern, hlooks, htree⟩ :=
    Pattern.exists_of_parse? "x|y" rfl rfl (by decide +kernel)
  have hwhole : ∀ branches, pattern.tree ≠ .choice branches := by
    intro branches h
    rw [htree] at h
    cases h
  have hmachine : pattern.machine =
      ⟨#[.stop, .char 'y' 0, .char 'x' 0, .fork 2 1, .look .textStart 3], 4⟩ := by
    rw [pattern.machine_eq, htree]
    rfl
  have hsought : pattern.sought (.start "yz") = .start ['y', 'z'] := by
    rw [Pattern.sought, hlooks]
    rfl
  have hmatched : pattern.machine.matchAt? (.start ['y', 'z']) =
      some ((Place.start ['y', 'z']).past 'y' ['z']) := by
    have hwidth : 'y'.utf8Size = 1 := rfl
    rw [hmachine]
    simp [Pattern.Machine.matchAt?, Pattern.Machine.search, Pattern.Machine.index, Pattern.Step.next,
      Pattern.Look.holds, Pattern.PlaceIn.past, Place.start, Place.past, hwidth]
  have hfound : pattern.machine.findFrom? (pattern.sought (.start "yz")) =
      some (.start ['y', 'z'], (Place.start ['y', 'z']).past 'y' ['z']) := by
    rw [hsought]
    exact Pattern.Machine.findFrom?_of_matchAt? hmatched
  have hstep := regexStep_of_match? (s := .start (.start "yz")) (Pattern.match?_of_found hlooks hfound)
  obtain ⟨hbegins, value, htokens, hstands⟩ := regex_starts_at_cursor hpattern (.inr hwhole) hstep
  cases htokens
  exact ⟨pattern, hpattern, hwhole, congrArg Prod.fst hstep, hbegins, hstands⟩

theorem regex_starts_behind_cursor :
    ∃ pattern, Pattern.ofString? "x)|(y" = some pattern ∧
      (pattern.machine.findFrom? (pattern.sought (.start "zy"))).map
        (fun (start, stop) => (start.offset, stop.offset)) = some (1, 2) ∧
      (regexStep pattern (.start (.start "zy"))).1 = some [.leaf regexKind "y" 0 1] ∧
      ¬ Stands "zy".toList 0 1 "y" := by
  obtain ⟨pattern, hpattern, hlooks, htree⟩ :=
    Pattern.exists_of_parse? "x)|(y" rfl rfl (by decide +kernel)
  have hmachine : pattern.machine =
      ⟨#[.stop, .char 'y' 0, .char 'x' 0, .look .textStart 2, .fork 3 1], 4⟩ := by
    rw [pattern.machine_eq, htree]
    rfl
  have hsought : pattern.sought (.start "zy") = .start ['z', 'y'] := by
    rw [Pattern.sought, hlooks]
    rfl
  have hfound : pattern.machine.findFrom? (pattern.sought (.start "zy")) =
      some ((Place.start ['z', 'y']).past 'z' ['y'],
        ((Place.start ['z', 'y']).past 'z' ['y']).past 'y' []) := by
    have hy : 'y'.utf8Size = 1 := rfl
    have hz : 'z'.utf8Size = 1 := rfl
    rw [hsought, hmachine]
    simp [Pattern.Machine.findFrom?, Pattern.Machine.matchAt?,
      Pattern.Machine.search, Pattern.Machine.index, Pattern.Step.next, Pattern.Look.holds,
      Pattern.PlaceIn.past, Place.start, Place.past, hy, hz]
  have hstep := regexStep_of_match? (s := .start (.start "zy")) (Pattern.match?_of_found hlooks hfound)
  refine ⟨pattern, hpattern, ?_, congrArg Prod.fst hstep, ?_⟩
  · rw [hfound]
    rfl
  · rintro ⟨before, after, hsource, hstart, -⟩
    cases before with
    | nil => cases hsource
    | cons c before =>
      have hpos := c.utf8Size_pos
      rw [byteLength_cons] at hstart
      omega

end Program

end PegGrammar
