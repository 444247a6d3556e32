import PegGrammar.Proofs.Parser.Parts
import PegGrammar.Proofs.Program.Restoration

/-!
# Tokens have no say

A run never looks at the tokens that it has found: what is tried next depends on the cursor and on the report.
So two programs that differ only in the tokens that they give go through the same states, and to say how their
outcomes are related it is enough to translate the tokens one by one. Chains are put one behind the other and
nothing else is done to them, so that a translation passes through every combinator; only where tokens are made,
at the leaves and at the exits of rules, does it have to be looked at.

Scripts make tokens of their own, about which nothing is known, so there are none in what follows.
-/

namespace PegGrammar

/-- No script is run from anywhere in the tree. -/
def Parser.Scriptless (q : Parser) : Prop :=
  ∀ source handle, ¬ Within (.script source handle) q

/-- A translation of tokens that leaves alone what the leaves of a parser make of literals. -/
def Parser.Keeps (f : Token → Chain) (q : Parser) : Prop :=
  ∀ text, Within (.literal text) q → ∀ start stop,
    f (.leaf text text start stop) = [.leaf text text start stop]

theorem Parser.Scriptless.part {q part : Parser} (h : q.Scriptless) (hpart : part ∈ q.parts) :
    part.Scriptless :=
  fun source handle hwithin => h source handle (.part hpart hwithin)

theorem Parser.Keeps.part {f : Token → Chain} {q part : Parser} (h : q.Keeps f)
    (hpart : part ∈ q.parts) : part.Keeps f :=
  fun text hwithin => h text (.part hpart hwithin)

namespace Program

/-- No rule of the program runs a script. -/
def Scriptless (p : Program) : Prop := ∀ rule ∈ p.rules, rule.body.Scriptless

/-- The kinds of tokens that are the same in all grammars. -/
def fixedKinds : List String := [regexKind, currentIndentKind, indentKind, dedentKind]

/-- A translation of tokens that leaves alone what the leaves make of anything but literals. -/
def KeepsFixed (f : Token → Chain) : Prop :=
  ∀ kind ∈ fixedKinds, ∀ value start stop,
    f (.leaf kind value start stop) = [.leaf kind value start stop]

/-- Two steps that do the same, but for the tokens, which are those of the first one translated. -/
def Translates (f : Token → Chain) (step other : Step) : Prop :=
  ∀ s, other s = ((step s).1.map (List.flatMap f), (step s).2)

variable {f : Token → Chain}

theorem flatMap_found (f : Token → Chain) (found : List Chain) :
    found.reverse.flatten.flatMap f = (found.map (List.flatMap f)).reverse.flatten := by
  induction found with
  | nil => rfl
  | cons chain found ih => simp [ih]

/-! ### Leaves -/

theorem translates_literalStep {text : String}
    (h : ∀ start stop, f (.leaf text text start stop) = [.leaf text text start stop]) :
    Translates f (literalStep text) (literalStep text) := by
  intro s
  rw [literalStep]
  split
  · rfl
  · simp [h]

theorem translates_regexStep (hfixed : KeepsFixed f) (pattern : Pattern) :
    Translates f (regexStep pattern) (regexStep pattern) := by
  intro s
  have hregex := hfixed regexKind (by simp [fixedKinds])
  rw [regexStep]
  split
  · rfl
  · simp [hregex]

theorem translates_eofStep : Translates f eofStep eofStep := by
  intro s
  rw [eofStep]
  dsimp only
  split <;> rfl

theorem translates_indentation (hfixed : KeepsFixed f) : Translates f indentation indentation := by
  intro s
  have hcurrent := hfixed currentIndentKind (by simp [fixedKinds])
  have hindent := hfixed indentKind (by simp [fixedKinds])
  have hdedent := hfixed dedentKind (by simp [fixedKinds])
  have hclosed : ∀ closed start,
      (List.replicate closed (Token.leaf dedentKind "" start start)).flatMap f =
        List.replicate closed (Token.leaf dedentKind "" start start) := by
    intro closed start
    induction closed with
    | zero => rfl
    | succ closed ih => simp [List.replicate_succ, ih, hdedent]
  rw [indentation]
  dsimp only
  split
  · simp [hcurrent]
  split
  · simp [hcurrent, hindent]
  split
  · simp [hclosed, hcurrent]
  · rfl

/-! ### Trees -/

theorem translates_repeatFrom {step other : Step} (h : Translates f step other) (fuel last : Nat)
    (found : List Chain) :
    Translates f (repeatFrom step fuel last found)
      (repeatFrom other fuel last (found.map (List.flatMap f))) := by
  induction fuel generalizing last found with
  | zero =>
    intro s
    simp [repeatFrom, flatMap_found]
  | succ fuel ih =>
    intro s
    rw [repeatFrom, repeatFrom]
    dsimp only
    split
    · rw [h s]
      rcases hstep : step s with ⟨_ | tokens, next⟩
      · simp [flatMap_found]
      · exact ih s.position (tokens :: found) next
    · simp [flatMap_found]

theorem translates_repeatStep {step other : Step} (h : Translates f step other) :
    Translates f (repeatStep step) (repeatStep other) := by
  intro s
  rw [repeatStep, repeatStep, h s]
  rcases hstep : step s with ⟨_ | tokens, next⟩
  · rfl
  · exact translates_repeatFrom h _ _ [tokens] next

section

variable {p q : Program} {call other : Nat → Step}

mutual

/-- A parser without scripts translates if the rules that it calls do. -/
theorem translates_node (hfixed : KeepsFixed f) (hliterals : q.literals = p.literals)
    (hcall : ∀ id, Translates f (call id) (other id)) :
    (parser : Parser) → parser.Scriptless → parser.Keeps f →
      Translates f (node p call parser) (node q other parser)
  | .literal text, _, hkeeps => translates_literalStep (hkeeps text .root)
  | .regex pattern, _, _ => translates_regexStep hfixed pattern
  | .eof, _, _ => translates_eofStep
  | .indent, _, _ => translates_indentation hfixed
  | .sequence items, hscripts, hkeeps => fun s => by
    have hitems : ∀ item ∈ items, item.Scriptless ∧ item.Keeps f :=
      fun _ hitem => ⟨hscripts.part hitem, hkeeps.part hitem⟩
    rw [node, node]
    exact translates_runItems hfixed hliterals hcall _ items hitems [] s
  | .repeated body, hscripts, hkeeps => by
    have hbody := translates_node hfixed hliterals hcall body (hscripts.part List.mem_cons_self)
      (hkeeps.part List.mem_cons_self)
    rw [node, node]
    exact translates_repeatStep hbody
  | .choice branches, hscripts, hkeeps => fun s => by
    have hbranches : ∀ branch ∈ branches, branch.2.Scriptless ∧ branch.2.Keeps f :=
      fun _ hbranch => ⟨hscripts.part (List.mem_map_of_mem hbranch),
        hkeeps.part (List.mem_map_of_mem hbranch)⟩
    rw [node, node]
    exact translates_runBranches hfixed hliterals hcall _ branches hbranches s
  | .ahead body, hscripts, hkeeps => fun s => by
    have hbody := translates_node hfixed hliterals hcall body (hscripts.part List.mem_cons_self)
      (hkeeps.part List.mem_cons_self) s
    rw [node, node]
    dsimp only
    rw [hbody]
    rcases node p call body s with ⟨_ | tokens, next⟩ <;> rfl
  | .notAhead body, hscripts, hkeeps => fun s => by
    have hbody := translates_node hfixed hliterals hcall body (hscripts.part List.mem_cons_self)
      (hkeeps.part List.mem_cons_self) s
    rw [node, node]
    dsimp only
    rw [hbody]
    rcases node p call body s with ⟨_ | tokens, next⟩ <;> rfl
  | .optional body, hscripts, hkeeps => fun s => by
    have hbody := translates_node hfixed hliterals hcall body (hscripts.part List.mem_cons_self)
      (hkeeps.part List.mem_cons_self) s
    rw [node, node]
    dsimp only
    rw [hbody]
    rcases node p call body s with ⟨_ | tokens, next⟩ <;> rfl
  | .script source handle, hscripts, _ => (hscripts source handle .root).elim
  | .rule id, _, _ => hcall id

theorem translates_runItems (hfixed : KeepsFixed f) (hliterals : q.literals = p.literals)
    (hcall : ∀ id, Translates f (call id) (other id)) (origin : Checkpoint) :
    (items : List Parser) → (∀ item ∈ items, item.Scriptless ∧ item.Keeps f) →
      (found : List Chain) →
      Translates f (runItems p call origin found items)
        (runItems q other origin (found.map (List.flatMap f)) items)
  | [], _, found => fun s => by simp [runItems, flatMap_found]
  | item :: items, hitems, found => fun s => by
    obtain ⟨⟨hscripts, hkeeps⟩, hrest⟩ := List.forall_mem_cons.1 hitems
    rw [runItems, runItems]
    dsimp only
    rw [translates_node hfixed hliterals hcall item hscripts hkeeps s]
    rcases node p call item s with ⟨_ | tokens, next⟩
    · rfl
    · exact translates_runItems hfixed hliterals hcall origin items hrest (tokens :: found) next

theorem translates_runBranches (hfixed : KeepsFixed f) (hliterals : q.literals = p.literals)
    (hcall : ∀ id, Translates f (call id) (other id)) (origin : Checkpoint) :
    (branches : List (Option BitSet × Parser)) →
      (∀ branch ∈ branches, branch.2.Scriptless ∧ branch.2.Keeps f) →
      Translates f (runBranches p call origin branches) (runBranches q other origin branches)
  | [], _ => fun s => by simp [runBranches]
  | (first, branch) :: branches, hbranches => fun s => by
    obtain ⟨⟨hscripts, hkeeps⟩, hrest⟩ := List.forall_mem_cons.1 hbranches
    have hworth : q.worthTrying first s = p.worthTrying first s := by
      simp only [worthTrying, mayStart, literalsStarting, hliterals]
    rw [runBranches, runBranches]
    dsimp only
    rw [hworth]
    rcases p.worthTrying first s with ⟨_ | _, tried⟩
    · exact translates_runBranches hfixed hliterals hcall origin branches hrest tried
    · dsimp only
      rw [translates_node hfixed hliterals hcall branch hscripts hkeeps tried]
      rcases node p call branch tried with ⟨_ | tokens, next⟩
      · exact translates_runBranches hfixed hliterals hcall origin branches hrest _
      · rfl

end

end

/-! ### Rules -/

/-- Two programs whose runs differ in the tokens only: in those that rules put around what they matched. -/
structure TranslatesTo (f : Token → Chain) (p q : Program) : Prop where
  fixed : KeepsFixed f
  scriptless : p.Scriptless
  keeps : ∀ rule ∈ p.rules, rule.body.Keeps f
  rules : q.rules = p.rules
  literals : q.literals = p.literals
  depthLimit : q.depthLimit = p.depthLimit
  trace : q.config.trace = p.config.trace
  wrap : ∀ rule ∈ p.rules, ∀ start tokens c,
    q.wrap rule start (List.flatMap f tokens) c = (p.wrap rule start tokens c).flatMap f

theorem translates_callRule {p q : Program} (h : p.TranslatesTo f q) (room id : Nat) :
    Translates f (p.callRule room id) (q.callRule room id) := by
  induction room generalizing id with
  | zero =>
    intro s
    rw [callRule, callRule, h.rules]
    cases p.rules[id]? with
    | none => rfl
    | some rule => simp [tooDeep, h.depthLimit]
  | succ room ih =>
    intro s
    have htraced : q.traced = p.traced := by
      funext depth message s
      rw [traced, traced, h.trace]
    rw [callRule, callRule, h.rules, h.depthLimit, htraced]
    dsimp only
    cases hrule : p.rules[id]? with
    | none => rfl
    | some rule =>
      have hmem := List.mem_of_getElem? hrule
      dsimp only
      rw [translates_node h.fixed h.literals ih rule.body (h.scriptless rule hmem)
        (h.keeps rule hmem)]
      rcases node p (p.callRule room) rule.body _ with ⟨_ | tokens, next⟩
      · rfl
      · dsimp only [Option.map_some]
        rw [h.wrap rule hmem]
        rfl

/-- A run of the one program is one of the other with its tokens translated. -/
theorem runRule_translated {p q : Program} (h : p.TranslatesTo f q) (id : Nat) (cursor : Cursor) :
    q.runRule id cursor =
      { p.runRule id cursor with
        outcome := (p.runRule id cursor).outcome.map (List.flatMap f) } := by
  rw [runRule, runRule, h.depthLimit, translates_callRule h]

end Program

end PegGrammar
