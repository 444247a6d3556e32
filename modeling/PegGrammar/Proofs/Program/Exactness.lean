import PegGrammar.Proofs.Compile.Supply
import PegGrammar.Proofs.Program.Invariance
import PegGrammar.Proofs.Program.Mirroring

/-!
# The test of alternatives is exact

Before an alternative that carries literals is tried, a run looks whether one of them stands at the cursor. It does so
with two sets of numbers: those that the alternative carries, and those of all literals of the program that stand
there, which are kept with the offset that they were found at. Three things make the answer exact. What is kept is
right at every moment, since only the offset says where in a text that never changes the cursor is, and it does not
matter how the cursor got there. Whatever branch is offered at a moment is one of a rule of the program, so its set is
one that compiling made. And the numbers in both sets are those of one registry, in which each has one literal.
-/

namespace PegGrammar

/-- The branches that are yet to be chosen from. -/
def Waiting.offers : Waiting → List (Option BitSet × Parser)
  | .branches _ rest => rest
  | _ => []

def Focus.offers : Focus → List (Option BitSet × Parser)
  | .choose _ branches => branches
  | _ => []

def Moment.offers (m : Moment) : List (Option BitSet × Parser) := m.focus.offers ++ m.waiting.flatMap Waiting.offers

/-- What the branch carries that is chosen or skipped next. -/
def Focus.tested? : Focus → Option BitSet
  | .choose _ ((first, _) :: _) => first
  | _ => none

theorem Focus.eq_choose_of_tested? {focus : Focus} {first : BitSet} (h : focus.tested? = some first) :
    ∃ origin branch rest, focus = .choose origin ((some first, branch) :: rest) := by
  cases focus with
  | choose origin branches =>
    cases branches with
    | nil => cases h
    | cons next rest =>
      obtain ⟨carried, branch⟩ := next
      cases (h : carried = some first)
      exact ⟨origin, branch, rest, rfl⟩
  | run | call | back => cases h

namespace Program

open StateTransition

variable {p : Program}

/-! ### Moments by number -/

/-- The moment of a run after a number of others. -/
def moment? (p : Program) (id : Nat) (cursor : Cursor) : Nat → Option Moment
  | 0 => some (.start id cursor)
  | n + 1 => (p.moment? id cursor n).bind p.next?

theorem reaches_of_moment? {id : Nat} {cursor : Cursor} {n : Nat} {m : Moment} (h : p.moment? id cursor n = some m) :
    Reaches p.next? (.start id cursor) m := by
  induction n generalizing m with
  | zero =>
    cases h
    exact .refl
  | succ n ih =>
    obtain ⟨mid, hmid, hnext⟩ := Option.bind_eq_some_iff.1 h
    exact .tail (ih hmid) hnext

/-! ### What is kept -/

section

variable {waiting : List Waiting} {s : Running}

theorem starting_enter (parser : Parser) : (p.enter waiting s parser).state.starting = s.starting := by
  cases parser with
  | literal text =>
    change (literalStep text s).2.starting = _
    rw [literalStep]
    split <;> rfl
  | regex pattern =>
    change (regexStep pattern s).2.starting = _
    rw [regexStep]
    split <;> rfl
  | eof => rfl
  | indent =>
    change (indentation s).2.starting = _
    rw [indentation]
    dsimp only
    split
    · rfl
    split
    · rfl
    split <;> rfl
  | script source handle =>
    change (p.scriptStep source handle s).2.starting = _
    rw [scriptStep]
    dsimp only
    split <;> rfl
  | sequence items => cases items <;> rfl
  | choice | repeated | ahead | notAhead | optional | rule => rfl

theorem starting_enterRule (rule : CompiledRule) : (p.enterRule rule waiting s).state.starting = s.starting := by
  rw [enterRule]
  split
  · change (p.tooDeep rule s).starting = _
    rw [tooDeep]
    dsimp only
    split <;> rfl
  · change (p.traced _ _ s).starting = _
    rw [traced]
    split <;> rfl

theorem starting_leave (outcome : Option Chain) (w : Waiting) :
    (p.leave outcome waiting s w).state.starting = s.starting := by
  cases w with
  | items origin found rest =>
    cases outcome with
    | none => rfl
    | some tokens => cases rest <;> rfl
  | repeated body start last found =>
    cases outcome with
    | none => rfl
    | some tokens =>
      rw [leave]
      split <;> rfl
  | branches | optional => cases outcome <;> rfl
  | ahead | notAhead | reference => rfl
  | rule rule start =>
    change (p.traced _ _ s).starting = _
    rw [traced]
    split <;> rfl

/-- Only the test of an alternative changes what is kept, and keeps what is right. Whatever else happens, the cursor
stays in its text, in which an offset means the same place throughout. -/
theorem remembers_of_next (hscripts : p.scripts.OnlyMoves) {m m' : Moment} (h : p.next? m = some m')
    (hm : m.state.Remembers p) : m'.state.Remembers p := by
  have kept : m'.state.starting = m.state.starting → m'.state.Remembers p := by
    intro hstarting position set hkept place hsource
    exact hm position set (hstarting ▸ hkept) place (hsource.trans (extends_of_next hscripts h).source)
  cases next?_eq_some_iff.1 h with
  | enter parser => exact kept (starting_enter parser)
  | exhausted => exact kept rfl
  | @tried _ first _ _ _ s _ htry | @skipped _ first _ _ _ s _ htry =>
    have htested := (worthTrying_spec first hm).2
    rw [htry] at htested
    exact htested
  | called => exact kept (starting_enterRule _)
  | left outcome w => exact kept (starting_leave outcome w)

theorem remembers_of_reaches (hscripts : p.scripts.OnlyMoves) {id : Nat} {cursor : Cursor} {m : Moment}
    (h : Reaches p.next? (.start id cursor) m) : m.state.Remembers p := by
  induction h with
  | refl => exact Running.remembers_start p cursor
  | tail _ hnext ih => exact remembers_of_next hscripts hnext ih

end

/-! ### What is offered -/

/-- A branch is one of a choice in the body of some rule. -/
def Offers (p : Program) (branch : Option BitSet × Parser) : Prop :=
  ∃ branches, p.Contains (.choice branches) ∧ branch ∈ branches

section

variable {waiting : List Waiting} {s : Running}

theorem offers_goOn (hwaiting : ∀ branch ∈ waiting.flatMap Waiting.offers, p.Offers branch) (origin : Checkpoint)
    (found : List Chain) (items : List Parser) :
    ∀ branch ∈ (Moment.goOn origin found waiting s items).offers, p.Offers branch := by
  cases items <;> exact hwaiting

theorem offers_enter {parser : Parser} (hparser : p.Contains parser)
    (hwaiting : ∀ branch ∈ waiting.flatMap Waiting.offers, p.Offers branch) :
    ∀ branch ∈ (p.enter waiting s parser).offers, p.Offers branch := by
  cases parser with
  | choice branches => exact List.forall_mem_append.2 ⟨fun branch hbranch => ⟨branches, hparser, hbranch⟩, hwaiting⟩
  | sequence items => exact offers_goOn hwaiting _ _ items
  | literal | regex | eof | indent | script | repeated | ahead | notAhead | optional | rule => exact hwaiting

theorem offers_leave {w : Waiting} (hw : ∀ branch ∈ w.offers, p.Offers branch)
    (hwaiting : ∀ branch ∈ waiting.flatMap Waiting.offers, p.Offers branch) (outcome : Option Chain) :
    ∀ branch ∈ (p.leave outcome waiting s w).offers, p.Offers branch := by
  cases w with
  | items origin found rest =>
    cases outcome with
    | none => exact hwaiting
    | some tokens => exact offers_goOn hwaiting _ _ rest
  | branches origin rest =>
    cases outcome with
    | none => exact List.forall_mem_append.2 ⟨hw, hwaiting⟩
    | some tokens => exact hwaiting
  | repeated body start last found =>
    cases outcome with
    | none => exact hwaiting
    | some tokens =>
      rw [leave]
      split <;> exact hwaiting
  | optional => cases outcome <;> exact hwaiting
  | ahead | notAhead | reference | rule => exact hwaiting

theorem offers_of_next {m m' : Moment} (h : Next p m m') (hparsers : ∀ q ∈ m.parsers, p.Contains q)
    (hm : ∀ branch ∈ m.offers, p.Offers branch) : ∀ branch ∈ m'.offers, p.Offers branch := by
  cases h with
  | enter parser waiting s => exact offers_enter (hparsers parser List.mem_cons_self) hm
  | exhausted => exact hm
  | tried => exact (List.forall_mem_cons.1 hm).2
  | skipped => exact (List.forall_mem_cons.1 hm).2
  | called =>
    rw [enterRule]
    split <;> exact hm
  | left outcome w waiting s =>
    have hall : ∀ branch ∈ w.offers ++ waiting.flatMap Waiting.offers, p.Offers branch := hm
    obtain ⟨hw, hwaiting⟩ := List.forall_mem_append.1 hall
    exact offers_leave hw hwaiting outcome

/-- Whatever is offered in a run is a branch of a rule of the program. -/
theorem offers_of_reaches {id : Nat} {cursor : Cursor} {m : Moment} (h : Reaches p.next? (.start id cursor) m) :
    ∀ branch ∈ m.offers, p.Offers branch := by
  induction h with
  | refl => exact List.forall_mem_nil _
  | tail hm hnext ih => exact offers_of_next (next?_eq_some_iff.1 hnext) (contains_of_reaches hm) ih

end

/-! ### The test -/

/-- The numbers of the literals that stand at the cursor, as the test of an alternative takes them: those that are
kept, if they were found at the same offset. -/
def starters (p : Program) (s : Running) : BitSet :=
  match s.starting with
  | some (position, set) => if position = s.position then set else p.literalsStarting s.cursor.remaining
  | none => p.literalsStarting s.cursor.remaining

theorem mayStart_eq_overlaps (first : BitSet) (s : Running) :
    (p.mayStart first s).1 = (p.starters s).overlaps first := by
  rw [mayStart, starters]
  cases s.starting with
  | none => rfl
  | some kept =>
    dsimp only
    split <;> rfl

theorem starters_eq {s : Running} (hs : s.Remembers p) : p.starters s = p.literalsStarting s.cursor.remaining := by
  rw [starters]
  split
  · rename_i position set hstarting
    split
    · rename_i hposition
      exact hs position set hstarting s.cursor.place rfl hposition.symm
    · rfl
  · rfl

theorem registry_literalsStarting (p : Program) (text : List Char) :
    (p.literalsStarting text).registry = p.literals.identity := by
  have hfold : ∀ (entries : List (Nat × String)) (set : BitSet),
      (entries.foldl (fun set entry =>
        if entry.2.toList.isPrefixOf text then set.addId entry.1 else set) set).registry = set.registry := by
    intro entries
    induction entries with
    | nil => exact fun set => rfl
    | cons entry entries ih =>
      intro set
      rw [List.foldl_cons, ih]
      split
      · exact BitSet.registry_addId _ _
      · rfl
  exact hfold p.literals.entries (.empty _)

/-- The test of an alternative is exact at every moment of every run, whatever was kept before, however the cursor
came to where it is, and in whatever order and from whatever registry literals got their numbers: it says yes just if
one of the literals of the first set of the alternative stands at the cursor. The two sets that it looks at are over one
registry, so combining them is never refused. Of the orders, that of the bytes is the one in which the compiler goes
through a set. -/
theorem mayStart_exact {c : Compiler} (hcarry : ∀ entry ∈ c.overrides, entry.2.CarriesNothing)
    (hscripts : c.scripts.OnlyMoves) (start : String) :
    c.compileIn .ascending start = (c.compile start).1 ∧
    ∀ order p, c.compileIn order start = .ok p → ∀ id cursor m, Reaches p.next? (.start id cursor) m →
      ∀ origin first branch rest, m.focus = .choose origin ((some first, branch) :: rest) →
        ∃ r found, c.Supplies order p.literals r found first branch ∧
          (p.starters m.state).combine? BitSet.overlaps first = .ok (p.mayStart first m.state).1 ∧
          ((p.mayStart first m.state).1 = true ↔
            ∃ literal ∈ found.literals, literal.toList <+: m.state.cursor.remaining) := by
  refine ⟨c.compileIn_ascending start, fun order p hp id cursor m hm origin first branch rest hfocus => ?_⟩
  obtain ⟨hsound, hidentity, hsupplies⟩ := Compiler.supplies_of_compileIn hcarry hp
  have hengine : p.scripts = c.scripts := by
    obtain ⟨_, _, _, _, _, _, _, _, hprogram⟩ := Compiler.exists_session_of_compileIn hp
    rw [hprogram]
  have hoffered : (some first, branch) ∈ m.offers := by
    rw [Moment.offers, hfocus]
    exact List.mem_cons_self
  obtain ⟨branches, ⟨rule, hrule, hwithin⟩, hbranch⟩ := offers_of_reaches hm _ hoffered
  obtain ⟨r, found, hsupplied⟩ := hsupplies rule hrule branches hwithin _ hbranch first rfl
  have hstarters : p.starters m.state = p.literalsStarting m.state.cursor.remaining :=
    starters_eq (remembers_of_reaches (hengine ▸ hscripts) hm)
  refine ⟨r, found, hsupplied, ?_, ?_⟩
  · have hregistry : (p.starters m.state).registry = first.registry := by
      rw [hstarters, registry_literalsStarting, hidentity, hsupplied.registry]
    rw [BitSet.combine?, if_pos hregistry, mayStart_eq_overlaps]
  · rw [mayStart_eq_overlaps, hstarters]
    exact overlaps_literalsStarting_iff hsound hsupplied.denotes _

end Program

/-- Takes a number with its sign, goes back by a script, and takes the number again, sign and digit apart. -/
def Compiler.rereading : Compiler where
  grammar := [("start", .list [
    .combinator "$or" (.list [.combinator "$literal" (.text "-1"), .combinator "$literal" (.text "+1")]),
    .combinator "$script" (.text "rewind"),
    .combinator "$or" (.list [
      .list [.combinator "$optional" (.combinator "$literal" (.text "+")), .combinator "$literal" (.text "1")]])])]
  fingerprint := ⟨[]⟩
  scripts := (Script.stockEngine []).toEngine
  config := Config.default
  overrides := []

namespace Program

/-- After the script went back, what is kept is still that of the first choice, and the test of the third alternative
says yes because a sign stands there. The last literals are numbered against the order of their bytes. -/
theorem mayStart_exact_rereading :
    (∀ entry ∈ Compiler.rereading.overrides, entry.2.CarriesNothing) ∧ Compiler.rereading.scripts.OnlyMoves ∧
      ∃ p m origin first branch rest, Compiler.rereading.compileIn .descending "start" = .ok p ∧
        StateTransition.Reaches p.next? (.start 0 (.start "+1")) m ∧
        m.focus = .choose origin ((some first, branch) :: rest) ∧
        p.literals.entries = [(1, "-1"), (2, "+1"), (3, "1"), (4, "+")] ∧ first.ids = [3, 4] ∧
        m.state.starting.map (fun kept => (kept.1, kept.2.ids)) = some (0, [2, 4]) ∧
        ∃ r found, Compiler.rereading.Supplies .descending p.literals r found first branch ∧
          (p.starters m.state).combine? BitSet.overlaps first = .ok true ∧
          ∃ literal ∈ found.literals, literal.toList <+: m.state.cursor.remaining := by
  have hcarry : ∀ entry ∈ Compiler.rereading.overrides, entry.2.CarriesNothing := fun entry hentry => nomatch hentry
  have hscripts : Compiler.rereading.scripts.OnlyMoves := Script.onlyMoves_stockEngine
  have htested : ((Compiler.rereading.compileIn .descending "start").toOption.bind fun p =>
      (p.moment? 0 (.start "+1") 11).bind fun m => m.focus.tested?.map fun first =>
        (p.literals.entries, first.ids, m.state.starting.map (fun kept => (kept.1, kept.2.ids)),
          (p.mayStart first m.state).1)) =
      some ([(1, "-1"), (2, "+1"), (3, "1"), (4, "+")], [3, 4], some (0, [2, 4]), true) := by decide +kernel
  rcases hp : Compiler.rereading.compileIn .descending "start" with e | p
  · rw [hp] at htested
    cases htested
  rw [hp, Except.toOption, Option.bind_some] at htested
  obtain ⟨m, hmoment, htested⟩ := Option.bind_eq_some_iff.1 htested
  obtain ⟨first, hfirst, htested⟩ := Option.map_eq_some_iff.1 htested
  obtain ⟨hliterals, htested⟩ := Prod.mk.inj htested
  obtain ⟨hids, htested⟩ := Prod.mk.inj htested
  obtain ⟨hkept, hstarts⟩ := Prod.mk.inj htested
  obtain ⟨origin, branch, rest, hfocus⟩ := Focus.eq_choose_of_tested? hfirst
  have hm := reaches_of_moment? hmoment
  obtain ⟨-, hexact⟩ := mayStart_exact hcarry hscripts "start"
  obtain ⟨r, found, hsupplied, hcombined, hstands⟩ := hexact .descending p hp 0 _ m hm origin first branch rest hfocus
  rw [hstarts] at hcombined
  exact ⟨hcarry, hscripts, p, m, origin, first, branch, rest, rfl, hm, hfocus, hliterals, hids, hkept, r, found,
    hsupplied, hcombined, hstands.1 hstarts⟩

end Program

end PegGrammar
