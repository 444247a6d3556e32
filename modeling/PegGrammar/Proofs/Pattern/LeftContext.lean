import PegGrammar.Proofs.Pattern.Abreast
import PegGrammar.Proofs.Pattern.Anchored
import PegGrammar.Proofs.Pattern.Classic

/-!
# What stands in front of a match

A tree without assertions about what stands in front of a place matches behind any text as it does behind any
other. So such a pattern may be matched in what is left of a text as if that were the whole: if the pattern is
one by itself, then what is read between the parentheses is the same tree with the assertion in front and
without it, and the two machines differ by the one step that makes this assertion.

The assertions of a pattern are looked for in the older notation. Where that has the pattern, it has the same
assertions as the full notation. Where it does not, nothing is known, and none are taken for granted.
-/

namespace PegGrammar.Pattern

/-! ### The tree behind the assertion -/

theorem readFrom_closing {edition : Edition} {last : Reading} {rest : List Char} (houter : last.outer = [])
    (hrest : Behind [')'] [] (dropBlanks last.group.flags rest)) {steps : Nat} {around : Group} {whole : Part}
    (hread : readFrom edition steps (last.over [around]) rest = some whole) (around' : Group) :
    readFrom edition steps (last.over [around']) rest = some
      (around'.add ⟨.group last.group.number last.group.whole.node, last.group.whole.depth + 1, true⟩).whole := by
  obtain ⟨group, outer, names, numbered⟩ := last
  cases houter
  have hover : ∀ g : Group, (⟨group, [], names, numbered⟩ : Reading).over [g] =
      ⟨group, [g], names, numbered⟩ := fun _ => rfl
  rw [hover] at hread ⊢
  dsimp only at hrest ⊢
  have hclose : ∀ g : Group, step? edition ⟨group, [g], names, numbered⟩ ')' [] = some
      (⟨g.add ⟨.group group.number group.whole.node, group.whole.depth + 1, true⟩, [], names, numbered⟩, []) :=
    fun _ => rfl
  cases steps with
  | zero => cases hread
  | succ steps =>
    rw [readFrom] at hread ⊢
    rcases hrest with hparen | ⟨-, hempty⟩
    · rw [hparen] at hread ⊢
      dsimp only [List.nil_append] at hread ⊢
      rw [hclose] at hread ⊢
      dsimp only at hread ⊢
      cases steps with
      | zero => cases hread
      | succ steps =>
        rw [readFrom, dropBlanks_nil]
        rfl
    · rw [hempty] at hread
      cases hread

theorem tree_of_anchored {source : String} {alone tree : Node} (halone : parse? .full source = some alone)
    (htree : parse? .full (anchored source) = some tree) :
    ∃ body, parse? .full (dotAll source) = some body ∧ tree = .concat [.look .textStart, body] := by
  obtain ⟨whole, hread, -, -⟩ := parse?_eq_some halone
  obtain ⟨whole', hread', hdepth, rfl⟩ := parse?_eq_some htree
  have hover : ∀ around, inside around =
      (⟨.start { Flags.initial with dotAll := true } none, [], [], 0⟩ : Reading).over [around] :=
    fun _ => rfl
  have hflags : Flags.initial.Alike { Flags.initial with dotAll := true } := ⟨rfl, rfl, rfl, rfl, rfl, rfl⟩
  rw [readFrom_anchored, hover] at hread'
  obtain ⟨g, last, steps, rest, -, houter, -, hrest, hruns⟩ :=
    readFrom_alike (.inr rfl) (Reading.alike_start [] 0 hflags) (Behind.refl [')'] source.toList) hread hread'
  have hends := readFrom_closing houter hrest ((hruns _).symm.trans hread')
  rw [hruns, hends] at hread'
  cases hread'
  refine ⟨.group last.group.number last.group.whole.node, ?_, rfl⟩
  rw [parse?, readFrom_dotAll, hover, hruns, hends]
  have hshallow : ((Group.start .initial none).add
      ⟨.group last.group.number last.group.whole.node, last.group.whole.depth + 1, true⟩).whole.depth ≤
        maxNesting := by
    change max 0 (last.group.whole.depth + 1) + 0 ≤ maxNesting
    change max (max 0 0) (last.group.whole.depth + 1) + 1 ≤ maxNesting at hdepth
    omega
  exact if_pos hshallow

/-! ### The machine behind the assertion -/

theorem Node.machine_anchored (body : Node) :
    (Node.concat [.look .textStart, body]).machine =
      body.machine.enter (.look .textStart body.machine.entry) := rfl

theorem Machine.matchAt?_enter_start (m : Machine) (text : List Char) :
    (m.enter (.look .textStart m.entry)).matchAt? (.start text) =
      ((m.enter (.look .textStart m.entry)).search true (.start text)
        ((∅ : Std.HashSet Nat).insert ((m.enter (.look .textStart m.entry)).index m.steps.size (.start text))) []
        [(m.entry, ⟨.start text, rfl⟩)]).head? := by
  have hentry : m.steps.size < (m.enter (.look .textStart m.entry)).steps.size := by
    simp [enter]
  have hstep : (m.enter (.look .textStart m.entry)).steps[m.steps.size] = .look .textStart m.entry :=
    Array.getElem_push_eq
  have hnext : Step.next (.look .textStart m.entry) (⟨.start text, rfl⟩ : PlaceIn (.start text)) =
      [(m.entry, ⟨.start text, rfl⟩)] := rfl
  have hentered : (m.enter (.look .textStart m.entry)).entry = m.steps.size := rfl
  rw [matchAt?, hentered, search, dif_pos hentry, dif_neg (by simp)]
  dsimp only
  rw [hstep]
  dsimp only
  rw [hnext, List.append_nil]

/-- A machine finds the same end where it stands as behind the assertion in what is left. -/
theorem Machine.Sound.matchAt?_anchored {m : Machine} (hm : m.Sound Look.LooksAhead) (p : Place) :
    Option.Rel (Abreast p (.start p.rest)) (m.matchAt? p)
      ((m.enter (.look .textStart m.entry)).matchAt? (.start p.rest)) := by
  set m' := m.enter (.look .textStart m.entry)
  have hsize : m'.steps.size = m.steps.size + 1 := Array.size_push _
  have hseen : m.SameSeen m' p (.start p.rest) ∅
      ((∅ : Std.HashSet Nat).insert (m'.index m.steps.size (.start p.rest))) := by
    intro n s hs
    have hother : m'.index m.steps.size (.start p.rest) ≠
        ((Place.start p.rest).offset + n) * m'.steps.size + s := by
      rw [index, Ne, index_eq_iff (hsize ▸ Nat.lt_succ_self _) (hsize ▸ Nat.lt_succ_of_lt hs)]
      exact fun heq => Nat.ne_of_gt hs heq.2
    rw [Std.HashSet.contains_insert, Std.HashSet.contains_empty, Std.HashSet.contains_empty, Bool.or_false,
      beq_false_of_ne hother]
  have hrest : p.rest = (Place.start p.rest).rest := rfl
  have hends := hm.search_abreast (m.within_enter _) true hrest hseen
  rw [matchAt?_enter_start, matchAt?]
  generalize m.search true p _ _ _ = ends at hends ⊢
  generalize m'.search true (.start p.rest) _ _ _ = ends' at hends ⊢
  cases hends with
  | nil => exact .none
  | cons hend => exact .some hend

/-- What is matched in what is left is what is matched in the whole text. -/
theorem match?_of_tree {pattern : Pattern} (hlooks : pattern.looksBehind = false) {body : Node}
    (htree : pattern.tree = .concat [.look .textStart, body]) (hbody : ∀ l ∈ body.looks, l.LooksAhead)
    (c : Cursor) :
    pattern.match? c =
      ((body.machine.findFrom? c.place).filter (fun found => found.1.offset == c.position)).map
        (fun (start, stop) => (start.textTo stop.offset, c.advance (stop.offset - start.offset))) := by
  have hmachine : pattern.machine = body.machine.enter (.look .textStart body.machine.entry) := by
    rw [pattern.machine_eq, htree, Node.machine_anchored]
  have hstarts : pattern.tree.startsAtText = true := by rw [htree]; rfl
  have hends := (Node.sound_machine hbody).matchAt?_anchored c.place
  rw [match?, hlooks, if_neg Bool.false_ne_true, find?, hstarts, if_pos rfl, hmachine, Cursor.position,
    Machine.findFrom?_filter]
  change Option.Rel _ _ (Machine.matchAt? _ (.start c.remaining)) at hends
  generalize body.machine.matchAt? c.place = found at hends ⊢
  generalize Machine.matchAt? _ (.start c.remaining) = found' at hends ⊢
  cases hends with
  | none => rfl
  | some hend =>
    rename_i stop stop'
    obtain ⟨n, hoffset, hoffset'⟩ := hend.offset
    have hrest : c.place.rest = (Place.start c.remaining).rest := rfl
    have htext : c.place.textTo (c.place.offset + n) = (Place.start c.remaining).textTo n :=
      Place.textTo_add hrest (Nat.add_zero _).symm n
    change some ((Place.start c.remaining).textTo stop'.offset, c.advance (stop'.offset - 0)) =
      some (c.place.textTo stop.offset, c.advance (stop.offset - c.place.offset))
    rw [hoffset, htext, Nat.add_sub_cancel_left, hoffset', Nat.sub_zero]
    have hstart : (Place.start c.place.rest).offset + n = n := Nat.zero_add n
    rw [hstart]

theorem looksBehind_of_ofString? {source : String} {pattern : Pattern} (h : ofString? source = some pattern)
    {seen : Node} (hseen : parse? .classic (dotAll source) = some seen) :
    pattern.looksBehind = seen.looksBehind := by
  obtain ⟨tree, -, hpattern⟩ := Option.bind_eq_some_iff.1 h
  cases hpattern
  exact congrArg (fun found => (found.map Node.looksBehind).getD false) hseen

/-- A tree that looks at nothing in front of a place matches alike behind all texts. A pattern by itself in which
the older notation sees such a tree is matched in what is left as it would be in the whole text. -/
theorem left_context_invisible {seen : Node} (hbehind : seen.looksBehind = false) :
    ((∀ l ∈ seen.looks, l.isStandard = true) →
      ∀ p q : Place, p.rest = q.rest → List.Forall₂ (Abreast p q) (seen.ends p) (seen.ends q)) ∧
    ∀ (source : String) (pattern : Pattern), ofString? source = some pattern →
      (parse? .full source).isSome = true → parse? .classic (dotAll source) = some seen →
      pattern.looksBehind = false ∧ ∃ body, parse? .full (dotAll source) = some body ∧ ∀ c : Cursor,
        pattern.match? c =
          ((body.machine.findFrom? c.place).filter (fun found => found.1.offset == c.position)).map
            (fun (start, stop) => (start.textTo stop.offset, c.advance (stop.offset - start.offset))) := by
  refine ⟨fun hstandard p q hrest => seen.ends_abreast hstandard hbehind hrest, ?_⟩
  intro source pattern hpattern halone hseen
  have hlooks : pattern.looksBehind = false := (looksBehind_of_ofString? hpattern hseen).trans hbehind
  obtain ⟨alone, halone⟩ := Option.isSome_iff_exists.1 halone
  obtain ⟨body, hbody, htree⟩ := tree_of_anchored halone (parse?_of_ofString? hpattern hlooks)
  have hahead : ∀ l ∈ body.looks, l.LooksAhead := by
    rw [looks_of_parse? hseen hbody]
    exact Node.looksAhead (standard_of_parse? hseen) hbehind
  exact ⟨hlooks, body, hbody, match?_of_tree hlooks htree hahead⟩

theorem left_context_invisible_letters :
    ∃ pattern body, ofString? "a$|b" = some pattern ∧ pattern.looksBehind = false ∧
      parse? .full (dotAll "a$|b") = some body ∧ body.looks = [.textEnd] ∧
      (∀ p q : Place, p.rest = q.rest → List.Forall₂ (Abreast p q) (body.ends p) (body.ends q)) ∧
      ∀ c : Cursor, pattern.match? c =
        ((body.machine.findFrom? c.place).filter (fun found => found.1.offset == c.position)).map
          (fun (start, stop) => (start.textTo stop.offset, c.advance (stop.offset - start.offset))) := by
  have hseen : parse? .classic (dotAll "a$|b") =
      some (.group none (.choice [.concat [.char 'a', .look .textEnd], .char 'b'])) := rfl
  have htree : parse? .full (dotAll "a$|b") =
      some (.group none (.choice [.concat [.char 'a', .look .textEnd], .char 'b'])) := rfl
  obtain ⟨pattern, hpattern, -, -⟩ := exists_of_parse? "a$|b" rfl rfl (by decide +kernel)
  obtain ⟨hends, hmatches⟩ := left_context_invisible
    (rfl : (Node.group none (.choice [.concat [.char 'a', .look .textEnd], .char 'b'])).looksBehind = false)
  obtain ⟨hlooks, body, hbody, hmatch⟩ := hmatches "a$|b" pattern hpattern rfl hseen
  cases hbody.symm.trans htree
  exact ⟨pattern, _, hpattern, hlooks, hbody, rfl, hends (by decide), hmatch⟩

theorem left_context_missed :
    ∃ pattern body, ofString? "(?<_>\\bfoo)" = some pattern ∧ pattern.looksBehind = false ∧
      (tree? "(?<_>\\bfoo)").isSome = true ∧ parse? .full (dotAll "(?<_>\\bfoo)") = some body ∧
      (∀ l ∈ body.looks, l.isStandard = true) ∧
      ∃ c : Cursor, c.place.source = "xfoo".toList ∧ c.position = 1 ∧
        (pattern.match? c).map Prod.fst = some "foo" ∧ body.machine.findFrom? c.place = none := by
  let body : Node := .group none (.group (some 1)
    (.concat [.look (.wordEdge false), .char 'f', .char 'o', .char 'o']))
  obtain ⟨pattern, hpattern, hlooks, htree⟩ : ∃ pattern, ofString? "(?<_>\\bfoo)" = some pattern ∧
      pattern.looksBehind = false ∧ pattern.tree = .concat [.look .textStart, body] :=
    exists_of_parse? _ rfl rfl (by decide +kernel)
  have hmachine : pattern.machine =
      ⟨#[.stop, .char 'o' 0, .char 'o' 1, .char 'f' 2, .look (.wordEdge false) 3, .look .textStart 4], 5⟩ := by
    rw [pattern.machine_eq, htree]
    rfl
  have hbody : body.machine =
      ⟨#[.stop, .char 'o' 0, .char 'o' 1, .char 'f' 2, .look (.wordEdge false) 3], 4⟩ := rfl
  let place : Place := (Place.start "xfoo".toList).past 'x' ['f', 'o', 'o']
  have hwidth : 'f'.utf8Size = 1 ∧ 'o'.utf8Size = 1 ∧ 'x'.utf8Size = 1 := ⟨rfl, rfl, rfl⟩
  have hword : isWord false 'f' = true ∧ isWord false 'o' = true ∧ isWord false 'x' = true := by decide
  have hmatch : pattern.machine.matchAt? (.start ['f', 'o', 'o']) =
      some ((((Place.start ['f', 'o', 'o']).past 'f' ['o', 'o']).past 'o' ['o']).past 'o' []) := by
    rw [hmachine]
    simp [Machine.matchAt?, Machine.search, Machine.index, Step.next, Look.holds, PlaceIn.past, Place.start,
      Place.past, hwidth, hword]
  have hsought : pattern.sought ((Cursor.start "xfoo").moveTo place) = .start ['f', 'o', 'o'] := by
    rw [sought, hlooks]
    rfl
  have hnone : body.machine.findFrom? place = none := by
    rw [hbody]
    simp [Machine.findFrom?, Machine.matchAt?, Machine.search, Machine.index, Step.next, Look.holds, Place.start,
      Place.past, hwidth, hword, place]
  refine ⟨pattern, body, hpattern, hlooks, by decide +kernel, rfl, by decide,
    (Cursor.start "xfoo").moveTo place, rfl, rfl, ?_, hnone⟩
  have hfound := Machine.findFrom?_of_matchAt? hmatch
  rw [← hsought] at hfound
  rw [match?_of_found hlooks hfound, hsought]
  rfl

end PegGrammar.Pattern
