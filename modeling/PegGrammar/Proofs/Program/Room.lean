import Mathlib.Order.Bounds.Basic
import Mathlib.Tactic.Ring
import PegGrammar.Proofs.Compile.Table
import PegGrammar.Proofs.Program.Termination

/-!
# Room for nested rules

A run needs room for each rule that is entered and not left, and for each parser that is being run. How many of these
there can be at one moment is read off the rules: between a rule and the next one inside of it stand parsers of its
body, each a part of the one around it, so there are no more than the body is nested. The room that is kept aside for
a level of rules is therefore enough for the level, and the limit on nesting takes care of how many levels there are.

The limit is as large as the options say or as fits below a cap, and it is worked out in machine words. Products that
are too large for a word are cut off, which can only be where not a single level fits.
-/

namespace PegGrammar

/-! ### Machine words -/

namespace Word

/-- The sum, if it is no larger than the largest number. -/
def add? (top a b : Nat) : Option Nat := if a + b ≤ top then some (a + b) else none

def sub? (a b : Nat) : Option Nat := if b ≤ a then some (a - b) else none

def mul? (top a b : Nat) : Option Nat := if a * b ≤ top then some (a * b) else none

def div? (a b : Nat) : Option Nat := if b = 0 then none else some (a / b)

/-- The sum, or the largest number if the sum is larger. -/
def cappedAdd (top a b : Nat) : Nat := min (a + b) top

/-- The product, or the largest number if the product is larger. -/
def cappedMul (top a b : Nat) : Nat := min (a * b) top

end Word

namespace Program

/-- The room of a level in machine words up to `top`. -/
def roomPerLevelIn (p : Program) (top : Nat) : Nat :=
  Word.cappedAdd top ruleRoom (Word.cappedMul top p.nesting combinatorRoom)

/-- The limit on nesting, if it can be worked out in machine words up to `top`. -/
def depthLimitIn? (p : Program) (top : Nat) : Option Nat := do
  let room ← Word.sub? maxRoom baseRoom
  let fitting ← Word.div? room (p.roomPerLevelIn top)
  pure (min p.config.maxDepth fitting)

/-- The size of the stack, if it can be worked out in machine words up to `top`. -/
def stackSizeIn? (p : Program) (top : Nat) : Option Nat := do
  let depth ← p.depthLimitIn? top
  let levels ← Word.mul? top depth (p.roomPerLevelIn top)
  Word.add? top baseRoom levels

variable {p : Program}

theorem roomPerLevel_pos (p : Program) : 0 < p.roomPerLevel := by
  rw [roomPerLevel, ruleRoom]
  omega

theorem room_depthLimit_le (p : Program) : p.depthLimit * p.roomPerLevel ≤ maxRoom - baseRoom := by
  have hfits := Nat.div_mul_le_self (maxRoom - baseRoom) p.roomPerLevel
  exact (Nat.mul_le_mul_right _ (Nat.min_le_right _ _)).trans hfits

theorem stackSize_le (p : Program) : p.stackSize ≤ maxRoom := by
  have hlevels := p.room_depthLimit_le
  have hbase : baseRoom ≤ maxRoom := by decide
  rw [stackSize]
  omega

/-- The limit is the largest number of levels that the options and the cap allow. -/
theorem isGreatest_depthLimit (p : Program) :
    IsGreatest {depth | depth ≤ p.config.maxDepth ∧ baseRoom + depth * p.roomPerLevel ≤ maxRoom} p.depthLimit := by
  refine ⟨⟨Nat.min_le_left _ _, p.stackSize_le⟩, fun depth ⟨hmax, hroom⟩ => Nat.le_min.2 ⟨hmax, ?_⟩⟩
  rw [Nat.le_div_iff_mul_le p.roomPerLevel_pos]
  omega

theorem roomPerLevelIn_cases (p : Program) {top : Nat} (htop : maxRoom ≤ top) :
    p.roomPerLevelIn top = p.roomPerLevel ∨
      p.depthLimit = 0 ∧ maxRoom ≤ p.roomPerLevelIn top := by
  rw [roomPerLevelIn, Word.cappedAdd, Word.cappedMul]
  by_cases hfits : p.roomPerLevel ≤ top
  · left
    rw [roomPerLevel] at hfits ⊢
    omega
  · have hlarge : maxRoom - baseRoom < p.roomPerLevel := by omega
    refine .inr ⟨?_, ?_⟩
    · rw [depthLimit, Nat.div_eq_of_lt hlarge, Nat.min_zero]
    · rw [roomPerLevel] at hfits
      omega

/-- The limit is worked out without leaving the range of words, and without dividing by zero. -/
theorem depthLimitIn?_eq (p : Program) {top : Nat} (htop : maxRoom ≤ top) :
    p.depthLimitIn? top = some p.depthLimit := by
  have hroom : Word.sub? maxRoom baseRoom = some (maxRoom - baseRoom) := by decide
  have hbase : 0 < maxRoom ∧ maxRoom - baseRoom < maxRoom := by decide
  rw [depthLimitIn?, hroom]
  rcases p.roomPerLevelIn_cases htop with heq | ⟨hzero, hlarge⟩
  · have hne : p.roomPerLevel ≠ 0 := Nat.ne_of_gt p.roomPerLevel_pos
    simp [Word.div?, heq, hne, depthLimit]
  · have hne : p.roomPerLevelIn top ≠ 0 := by omega
    have hnone : (maxRoom - baseRoom) / p.roomPerLevelIn top = 0 := Nat.div_eq_of_lt (by omega)
    simp [Word.div?, hne, hnone, hzero]

theorem stackSizeIn?_eq (p : Program) {top : Nat} (htop : maxRoom ≤ top) :
    p.stackSizeIn? top = some p.stackSize := by
  have hsize := p.stackSize_le
  have hlevels : p.depthLimit * p.roomPerLevelIn top = p.depthLimit * p.roomPerLevel := by
    rcases p.roomPerLevelIn_cases htop with heq | ⟨hzero, -⟩
    · rw [heq]
    · rw [hzero, Nat.zero_mul, Nat.zero_mul]
  rw [stackSize] at hsize
  have hmul : p.depthLimit * p.roomPerLevel ≤ top := by omega
  have hadd : baseRoom + p.depthLimit * p.roomPerLevel ≤ top := by omega
  simp [stackSizeIn?, p.depthLimitIn?_eq htop, Word.mul?, Word.add?, hlevels, hmul, hadd, stackSize]

end Program

/-! ### Parsers inside of each other -/

theorem Parser.one_le_nesting (q : Parser) : 1 ≤ q.nesting := by
  cases q <;> simp [nesting]

/-- How many parsers can be run inside of each other for what is done next. -/
def Focus.nesting : Focus → Nat
  | .run parser => parser.nesting
  | .choose _ branches => 1 + Parser.nestingOfBranches branches
  | .call _ | .back _ => 0

/-- How many parsers can still be run inside of each other below one that waits. -/
def Waiting.nesting : Waiting → Nat
  | .items _ _ rest => Parser.nestingOfItems rest
  | .branches _ rest => Parser.nestingOfBranches rest
  | .repeated body _ _ _ => body.nesting
  | .ahead _ | .notAhead _ | .optional _ | .reference | .rule _ _ => 0

/-- Whether a parser is being run for what is done next. -/
def Focus.running : Focus → Nat
  | .run _ | .choose _ _ => 1
  | .call _ | .back _ => 0

/-- How many parsers are being run: those that wait, and the one that what is done next belongs to. -/
def Moment.running (m : Moment) : Nat := m.focus.running + m.waiting.countP (fun w => !w.isRule)

theorem Focus.running_le_nesting (focus : Focus) : focus.running ≤ focus.nesting := by
  cases focus with
  | run parser => exact parser.one_le_nesting
  | choose => exact Nat.le_add_right _ _
  | call | back => exact Nat.le_refl _

namespace Program

/-- Between a rule that waits and the next one inside of it, and inside of the innermost one, there are no more parsers
than `limit`, with those that can still be run: inside of all that waits, as many as `inner`. -/
inductive Fits (limit : Nat) : Nat → List Waiting → Prop
  | outermost : Fits limit 0 []
  | rule {inner : Nat} {waiting : List Waiting} (rule : CompiledRule) (start : Nat) : inner ≤ limit →
      Fits limit 0 waiting → Fits limit inner (.rule rule start :: waiting)
  | inside {inner : Nat} {w : Waiting} {waiting : List Waiting} : w.isRule = false →
      Fits limit (1 + max inner w.nesting) waiting → Fits limit inner (w :: waiting)

variable {p : Program} {limit inner : Nat} {waiting : List Waiting} {s : Running}

theorem Fits.mono (h : Fits limit inner waiting) {fewer : Nat} (hle : fewer ≤ inner) :
    Fits limit fewer waiting := by
  induction h generalizing fewer with
  | outermost =>
    cases Nat.le_zero.1 hle
    exact .outermost
  | rule rule start hinner hfits => exact .rule rule start (hle.trans hinner) hfits
  | inside hw _ ih => exact .inside hw (ih (by omega))

theorem Fits.le (h : Fits limit inner waiting) :
    inner + waiting.countP (fun w => !w.isRule) ≤ Waiting.depth waiting * limit := by
  induction h with
  | outermost => exact Nat.zero_le _
  | @rule inner waiting rule start hinner _ ih =>
    have hdepth : Waiting.depth (.rule rule start :: waiting) = Waiting.depth waiting + 1 :=
      List.countP_cons_of_pos rfl
    rw [hdepth, List.countP_cons_of_neg (by simp [Waiting.isRule]), Nat.add_mul, Nat.one_mul]
    omega
  | @inside inner w waiting hw _ ih =>
    have hdepth : Waiting.depth (w :: waiting) = Waiting.depth waiting :=
      List.countP_cons_of_neg (by simp [hw])
    rw [hdepth, List.countP_cons_of_pos (by simp [hw])]
    omega

/-! ### From one moment to the next -/

theorem fits_goOn {origin : Checkpoint} {found : List Chain} {items : List Parser}
    (h : Fits limit (1 + Parser.nestingOfItems items) waiting) :
    Fits limit (Moment.goOn origin found waiting s items).focus.nesting
      (Moment.goOn origin found waiting s items).waiting := by
  cases items with
  | nil => exact h.mono (Nat.zero_le _)
  | cons item items => exact .inside rfl h

theorem fits_enter (parser : Parser) (h : Fits limit parser.nesting waiting) :
    Fits limit (p.enter waiting s parser).focus.nesting (p.enter waiting s parser).waiting := by
  cases parser with
  | literal | regex | eof | indent | script => exact h.mono (Nat.zero_le _)
  | sequence items => exact fits_goOn h
  | choice branches => exact h
  | repeated body =>
    refine .inside rfl ?_
    change Fits limit (1 + max body.nesting body.nesting) waiting
    rwa [Nat.max_self]
  | ahead body | notAhead body | optional body =>
    refine .inside rfl ?_
    change Fits limit (1 + max body.nesting 0) waiting
    rwa [Nat.max_zero]
  | rule id => exact .inside rfl h

theorem fits_leave (outcome : Option Chain) {w : Waiting} (h : Fits limit 0 (w :: waiting)) :
    Fits limit (p.leave outcome waiting s w).focus.nesting (p.leave outcome waiting s w).waiting := by
  cases h with
  | rule rule start _ hfits => exact hfits
  | inside hw hfits =>
    rw [Nat.zero_max] at hfits
    have hback := hfits.mono (Nat.zero_le _)
    cases w with
    | items origin found rest =>
      cases outcome with
      | none => exact hback
      | some tokens => exact fits_goOn hfits
    | branches origin rest =>
      cases outcome with
      | none => exact hfits
      | some tokens => exact hback
    | repeated body start last found =>
      cases outcome with
      | none => exact hback
      | some tokens =>
        rw [leave]
        split
        · refine .inside rfl ?_
          change Fits limit (1 + max body.nesting body.nesting) waiting
          rwa [Nat.max_self]
        · exact hback
    | optional origin => cases outcome <;> exact hback
    | ahead | notAhead | reference => exact hback
    | rule => cases hw

theorem fits_enterRule {rule : CompiledRule} (hrule : rule.body.nesting ≤ limit)
    (h : Fits limit 0 waiting) :
    Fits limit (p.enterRule rule waiting s).focus.nesting (p.enterRule rule waiting s).waiting := by
  rw [enterRule]
  split
  · exact h
  · exact .rule rule s.position hrule h

theorem depth_goOn (origin : Checkpoint) (found : List Chain) (items : List Parser) :
    Waiting.depth (Moment.goOn origin found waiting s items).waiting = Waiting.depth waiting := by
  cases items <;> rfl

theorem depth_enter (parser : Parser) :
    Waiting.depth (p.enter waiting s parser).waiting = Waiting.depth waiting := by
  cases parser with
  | sequence items => exact depth_goOn _ _ items
  | _ => rfl

theorem depth_leave (outcome : Option Chain) (w : Waiting) :
    Waiting.depth (p.leave outcome waiting s w).waiting ≤ Waiting.depth (w :: waiting) := by
  have hcons : Waiting.depth waiting ≤ Waiting.depth (w :: waiting) :=
    (List.sublist_cons_self w waiting).countP_le
  cases w with
  | items origin found rest =>
    cases outcome with
    | none => exact hcons
    | some tokens => exact Nat.le_of_eq (depth_goOn origin _ rest)
  | repeated body start last found =>
    cases outcome with
    | none => exact hcons
    | some tokens =>
      rw [leave]
      split <;> exact hcons
  | branches | optional => cases outcome <;> exact hcons
  | ahead | notAhead | reference | rule => exact hcons

theorem depth_enterRule (rule : CompiledRule) (h : Waiting.depth waiting ≤ p.depthLimit) :
    Waiting.depth (p.enterRule rule waiting s).waiting ≤ p.depthLimit := by
  rw [enterRule]
  split
  · exact h
  · have hdepth : Waiting.depth (.rule rule s.position :: waiting) = Waiting.depth waiting + 1 :=
      List.countP_cons_of_pos rfl
    change Waiting.depth (.rule rule s.position :: waiting) ≤ p.depthLimit
    omega

/-- No more rules are nested than the limit allows, and parsers fit between them. -/
structure Housed (p : Program) (m : Moment) : Prop where
  depth : Waiting.depth m.waiting ≤ p.depthLimit
  fits : Fits p.nesting m.focus.nesting m.waiting

theorem housed_of_next (hnesting : ∀ rule ∈ p.rules, rule.body.nesting ≤ p.nesting) {m m' : Moment}
    (h : p.next? m = some m') (hm : p.Housed m) : p.Housed m' := by
  obtain ⟨hdepth, hfits⟩ := hm
  cases next?_eq_some_iff.1 h with
  | enter parser => exact ⟨(depth_enter parser).trans_le hdepth, fits_enter parser hfits⟩
  | exhausted => exact ⟨hdepth, hfits.mono (Nat.zero_le _)⟩
  | tried => exact ⟨hdepth, .inside rfl hfits⟩
  | skipped => exact ⟨hdepth, hfits.mono (Nat.add_le_add_left (Nat.le_max_right _ _) 1)⟩
  | called hrule =>
    exact ⟨depth_enterRule _ hdepth, fits_enterRule (hnesting _ (List.mem_of_getElem? hrule)) hfits⟩
  | left outcome w => exact ⟨(depth_leave outcome w).trans hdepth, fits_leave outcome hfits⟩

theorem housed_of_reaches (hnesting : ∀ rule ∈ p.rules, rule.body.nesting ≤ p.nesting) {id : Nat}
    {cursor : Cursor} {m : Moment} (h : StateTransition.Reaches p.next? (.start id cursor) m) : p.Housed m := by
  induction h with
  | refl => exact ⟨Nat.zero_le _, .outermost⟩
  | tail _ hnext ih => exact housed_of_next hnesting hnext ih

theorem Housed.running_le {m : Moment} (h : p.Housed m) :
    m.running ≤ Waiting.depth m.waiting * p.nesting :=
  (Nat.add_le_add_right m.focus.running_le_nesting _).trans h.fits.le

/-- The room of the rules and parsers at a moment is part of the stack. -/
theorem Housed.room_le {m : Moment} (h : p.Housed m) :
    baseRoom + Waiting.depth m.waiting * ruleRoom + m.running * combinatorRoom ≤ p.stackSize := by
  calc baseRoom + Waiting.depth m.waiting * ruleRoom + m.running * combinatorRoom
    _ ≤ baseRoom + Waiting.depth m.waiting * ruleRoom +
          Waiting.depth m.waiting * p.nesting * combinatorRoom :=
        Nat.add_le_add_left (Nat.mul_le_mul_right _ h.running_le) _
    _ = baseRoom + Waiting.depth m.waiting * p.roomPerLevel := by
        rw [roomPerLevel]
        ring
    _ ≤ p.stackSize := Nat.add_le_add_left (Nat.mul_le_mul_right _ h.depth) _

end Program

theorem Compiler.nesting_of_compile {c : Compiler} {start : String} {p : Program}
    (hp : (c.compile start).1 = .ok p) : ∀ rule ∈ p.rules, rule.body.nesting ≤ p.nesting := by
  have hfold : ∀ (rules : List CompiledRule) (n : Nat),
      n ≤ rules.foldl (fun n rule => max n rule.body.nesting) n ∧
        ∀ rule ∈ rules, rule.body.nesting ≤ rules.foldl (fun n rule => max n rule.body.nesting) n := by
    intro rules
    induction rules with
    | nil => exact fun n => ⟨Nat.le_refl n, fun rule hrule => nomatch hrule⟩
    | cons first rules ih =>
      intro n
      obtain ⟨hstart, hrules⟩ := ih (max n first.body.nesting)
      refine ⟨(Nat.le_max_left _ _).trans hstart, List.forall_mem_cons.2 ⟨?_, hrules⟩⟩
      exact (Nat.le_max_right _ _).trans hstart
  obtain ⟨_, _, _, rules, -, -, -, -, hprogram⟩ := exists_session_of_compile hp
  rw [hprogram]
  exact (hfold rules 0).2

namespace Program

/-- The stack has room for every moment of a run of any rule: no more rules are nested than the limit allows, no more
parsers are run than the rules that are nested have levels, and the room that all of them take is part of the stack.
The stack is no larger than the cap. Its size and the limit are worked out in machine words without leaving their
range and without dividing by zero, if the cap is a machine word. The limit is the largest number of levels that the
options and the cap allow. -/
theorem stack_holds_run (p : Program) (hnesting : ∀ rule ∈ p.rules, rule.body.nesting ≤ p.nesting) {top : Nat}
    (htop : maxRoom ≤ top) :
    (∀ id cursor m, StateTransition.Reaches p.next? (.start id cursor) m →
      Waiting.depth m.waiting ≤ p.depthLimit ∧ m.running ≤ Waiting.depth m.waiting * p.nesting ∧
      baseRoom + Waiting.depth m.waiting * ruleRoom + m.running * combinatorRoom ≤ p.stackSize) ∧
    p.stackSize ≤ maxRoom ∧
    p.depthLimitIn? top = some p.depthLimit ∧ p.stackSizeIn? top = some p.stackSize ∧
    IsGreatest {depth | depth ≤ p.config.maxDepth ∧ baseRoom + depth * p.roomPerLevel ≤ maxRoom} p.depthLimit := by
  refine ⟨fun id cursor m hm => ?_, p.stackSize_le, p.depthLimitIn?_eq htop, p.stackSizeIn?_eq htop,
    p.isGreatest_depthLimit⟩
  have hhoused := housed_of_reaches hnesting hm
  exact ⟨hhoused.depth, hhoused.running_le, hhoused.room_le⟩

/-- Two rules that call themselves and each other, at any depth that the options allow, in words of 64 bits. -/
theorem stack_holds_run_sums :
    (∀ rule ∈ sums.rules, rule.body.nesting ≤ sums.nesting) ∧ maxRoom ≤ 2 ^ 64 - 1 ∧
      (∀ id cursor m, StateTransition.Reaches sums.next? (.start id cursor) m →
        Waiting.depth m.waiting ≤ 1000 ∧ m.running ≤ Waiting.depth m.waiting * 4 ∧
        baseRoom + Waiting.depth m.waiting * ruleRoom + m.running * combinatorRoom ≤ 82968576) ∧
      sums.stackSizeIn? (2 ^ 64 - 1) = some 82968576 := by
  have hcompiled : (Compiler.sums.compile "sum").1 = .ok sums := by cbv
  have hnesting := Compiler.nesting_of_compile hcompiled
  have htop : maxRoom ≤ 2 ^ 64 - 1 := by decide
  obtain ⟨hruns, -, -, hsize, -⟩ := stack_holds_run sums hnesting htop
  exact ⟨hnesting, htop, hruns, hsize⟩

end Program

end PegGrammar
