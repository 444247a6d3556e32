import PegGrammar.Proofs.Parser.Alike
import PegGrammar.Proofs.Program.Chaining

/-!
# Runs in lockstep

Two programs have the same rules, but for what alternatives carry, and they are run side by side. Their states are
related, and whatever the one finds is what the other one finds, with every token changed in the same way. As long as
the leaves keep the relation, and coming back does, and both runs skip the same alternatives, nothing in between can
tell them apart: both match or both fail, iterate as often, and choose the same alternative.

The two cursors need not be at the same offset. They keep their distance.
-/

namespace PegGrammar

namespace Program

/-- The results of two runs: the outcomes are the same but for a change of tokens, and the states are related. -/
structure Paired (R : Running → Running → Prop) (f : Token → Token)
    (result other : Option Chain × Running) : Prop where
  outcome : result.1 = other.1.map (List.map f)
  after : R result.2 other.2

/-- Two steps whose results are paired wherever they begin in related states. -/
def InStep (R : Running → Running → Prop) (f : Token → Token) (step other : Step) : Prop :=
  ∀ s t, R s t → Paired R f (step s) (other t)

section

variable {R : Running → Running → Prop} {f : Token → Token}

theorem Paired.matched {tokens : Chain} {next next' : Running} (h : R next next') :
    Paired R f (some (tokens.map f), next) (some tokens, next') :=
  ⟨rfl, h⟩

theorem Paired.matched_nothing {next next' : Running} (h : R next next') :
    Paired R f (some [], next) (some [], next') :=
  ⟨rfl, h⟩

theorem Paired.failed {next next' : Running} (h : R next next') :
    Paired R f (none, next) (none, next') :=
  ⟨rfl, h⟩

theorem Paired.matched_or_failed {result other : Option Chain × Running} (h : Paired R f result other) :
    (∃ tokens next next', result = (some (tokens.map f), next) ∧ other = (some tokens, next') ∧
        R next next') ∨
      ∃ next next', result = (none, next) ∧ other = (none, next') ∧ R next next' := by
  obtain ⟨outcome, next⟩ := result
  obtain ⟨outcome', next'⟩ := other
  obtain ⟨houtcome, hafter⟩ := h
  cases (houtcome : outcome = outcome'.map (List.map f))
  cases outcome' with
  | some tokens => exact .inl ⟨tokens, next, next', rfl, rfl, hafter⟩
  | none => exact .inr ⟨next, next', rfl, rfl, hafter⟩

theorem map_found (f : Token → Token) (found : List Chain) :
    found.reverse.flatten.map f = (found.map (List.map f)).reverse.flatten := by
  simp [List.map_flatten]

end

/-- A relation that two programs keep, between states whose cursors are `n` bytes apart. What their alternatives
carry is related too. -/
structure Lockstep (p q : Program) (n : Nat) (R : Running → Running → Prop) (f : Token → Token)
    (B : Option BitSet → Option BitSet → Prop) : Prop where
  rules : List.Forall₂ (CompiledRule.Alike B) p.rules q.rules
  depthLimit : q.depthLimit = p.depthLimit
  moves : p.scripts.OnlyMoves
  moves' : q.scripts.OnlyMoves
  position {s t : Running} : R s t → s.position = n + t.position
  length {s t : Running} : R s t → s.cursor.length = n + t.cursor.length
  /-- Both runs come back to where they were related. -/
  restored {s t next next' : Running} : R s t → R next next' → s.cursor.Extends next.cursor →
    t.cursor.Extends next'.cursor →
      R (next.restore s.cursor.checkpoint) (next'.restore t.cursor.checkpoint)
  /-- An alternative is worth trying in both runs or in neither. -/
  worthTrying {first first' : Option BitSet} {s t : Running} : B first first' → R s t →
    (p.worthTrying first s).1 = (q.worthTrying first' t).1 ∧
      R (p.worthTrying first s).2 (q.worthTrying first' t).2
  literal {text : String} : p.Contains (.literal text) → InStep R f (literalStep text) (literalStep text)
  regex {pattern : Pattern} : p.Contains (.regex pattern) →
    InStep R f (regexStep pattern) (regexStep pattern)
  eof : InStep R f eofStep eofStep
  indentation : InStep R f indentation indentation
  script {source : String} {handle : Nat} : p.Contains (.script source handle) →
    InStep R f (p.scriptStep source handle) (q.scriptStep source handle)
  /-- What is recorded of a rule says where it began and where it ended. -/
  traced {s t next next' : Running} (depth : Nat) (message : Nat → Nat → String) : R s t → R next next' →
    R (p.traced depth (message s.position next.position) next)
      (q.traced depth (message t.position next'.position) next')
  tooDeep {rule rule' : CompiledRule} {s t : Running} : rule'.name = rule.name → R s t →
    R (p.tooDeep rule s) (q.tooDeep rule' t)
  wrapped {rule rule' : CompiledRule} {s t next next' : Running} (tokens : Chain) : rule'.name = rule.name →
    R s t → R next next' →
      p.wrap rule s.position (tokens.map f) next.cursor =
        (q.wrap rule' t.position tokens next'.cursor).map f

/-- What is asked of the rules that are called. -/
structure CallsInStep (R : Running → Running → Prop) (f : Token → Token) (call other : Nat → Step) :
    Prop where
  inStep : ∀ id, InStep R f (call id) (other id)
  backtracks : ∀ id, Backtracks (call id)
  backtracks' : ∀ id, Backtracks (other id)

namespace Lockstep

variable {p q : Program} {n : Nat} {R : Running → Running → Prop} {f : Token → Token}
variable {B : Option BitSet → Option BitSet → Prop} {call other : Nat → Step}

/-! ### Repetitions -/

theorem repeatFrom (h : p.Lockstep q n R f B) {step step' : Step} (hstep : InStep R f step step')
    (fuel last : Nat) (found : List Chain) :
    InStep R f (repeatFrom step fuel (n + last) (found.map (List.map f)))
      (repeatFrom step' fuel last found) := by
  induction fuel generalizing last found with
  | zero =>
    intro s t hst
    rw [Program.repeatFrom, Program.repeatFrom, ← map_found]
    exact .matched hst
  | succ fuel ih =>
    intro s t hst
    rw [Program.repeatFrom, Program.repeatFrom, ← map_found]
    simp only [h.position hst, Nat.add_lt_add_iff_left]
    split
    · rcases (hstep s t hst).matched_or_failed with
        ⟨tokens, next, next', hs, ht, hafter⟩ | ⟨next, next', hs, ht, hafter⟩
      · rw [hs, ht]
        exact ih t.position (tokens :: found) next next' hafter
      · rw [hs, ht]
        exact .matched hafter
    · exact .matched hst

theorem repeatStep (h : p.Lockstep q n R f B) {step step' : Step} (hstep : InStep R f step step') :
    InStep R f (repeatStep step) (repeatStep step') := by
  intro s t hst
  have hfuel : s.cursor.length - s.position + 1 = t.cursor.length - t.position + 1 := by
    have hlength := h.length hst
    have hposition := h.position hst
    omega
  rw [Program.repeatStep, Program.repeatStep, hfuel, h.position hst]
  rcases (hstep s t hst).matched_or_failed with
    ⟨tokens, next, next', hs, ht, hafter⟩ | ⟨next, next', hs, ht, hafter⟩
  · rw [hs, ht]
    exact h.repeatFrom hstep _ t.position [tokens] next next' hafter
  · rw [hs, ht]
    exact .failed hafter

/-! ### Trees -/

theorem extended (h : p.Lockstep q n R f B) (hcalls : CallsInStep R f call other) (parser parser' : Parser)
    (s t : Running) :
    s.cursor.Extends (node p call parser s).2.cursor ∧
      t.cursor.Extends (node q other parser' t).2.cursor :=
  ⟨(backtracks_node h.moves hcalls.backtracks parser s).extended,
    (backtracks_node h.moves' hcalls.backtracks' parser' t).extended⟩

theorem returned (h : p.Lockstep q n R f B) (hcalls : CallsInStep R f call other) {parser parser' : Parser}
    {s t : Running} (hst : R s t) (hnode : Paired R f (node p call parser s) (node q other parser' t)) :
    R ((node p call parser s).2.restore s.cursor.checkpoint)
      ((node q other parser' t).2.restore t.cursor.checkpoint) := by
  obtain ⟨hs, ht⟩ := h.extended hcalls parser parser' s t
  exact h.restored hst hnode.after hs ht

mutual

/-- Parsers that are alike are in step if the rules that they call are. -/
theorem node (h : p.Lockstep q n R f B) (hcalls : CallsInStep R f call other) :
    (parser : Parser) → {parser' : Parser} → parser.Alike B parser' → p.Contains parser →
      InStep R f (Program.node p call parser) (Program.node q other parser')
  | .literal _, _, .literal _, hin => h.literal hin
  | .regex _, _, .regex _, hin => h.regex hin
  | .eof, _, .eof, _ => h.eof
  | .indent, _, .indent, _ => h.indentation
  | .sequence items, _, .sequence halike, hin => fun s t hst => by
    have hitems : ∀ item ∈ items, p.Contains item := fun _ hitem => hin.part hitem
    rw [Program.node, Program.node]
    exact h.runItems hcalls hst items halike hitems [] s t hst (.refl s.cursor) (.refl t.cursor)
  | .repeated body, _, .repeated halike, hin => by
    rw [Program.node, Program.node]
    exact h.repeatStep (h.node hcalls body halike (hin.part List.mem_cons_self))
  | .choice branches, _, .choice hfirsts halike, hin => fun s t hst => by
    have hbranches : ∀ branch ∈ branches, p.Contains branch.2 :=
      fun _ hbranch => hin.part (List.mem_map_of_mem hbranch)
    rw [Program.node, Program.node]
    exact h.runBranches hcalls hst branches hfirsts halike hbranches s t hst (.refl s.cursor) (.refl t.cursor)
  | .ahead body, _, .ahead halike, hin => fun s t hst => by
    have hbody := h.node hcalls body halike (hin.part List.mem_cons_self) s t hst
    rw [Program.node, Program.node]
    dsimp only
    rw [hbody.outcome]
    refine ⟨?_, h.returned hcalls hst hbody⟩
    cases (Program.node q other _ t).1 <;> rfl
  | .notAhead body, _, .notAhead halike, hin => fun s t hst => by
    have hbody := h.node hcalls body halike (hin.part List.mem_cons_self) s t hst
    rw [Program.node, Program.node]
    dsimp only
    rw [hbody.outcome]
    refine ⟨?_, h.returned hcalls hst hbody⟩
    cases (Program.node q other _ t).1 <;> rfl
  | .optional body, _, .optional halike, hin => fun s t hst => by
    have hbody := h.node hcalls body halike (hin.part List.mem_cons_self) s t hst
    have hback := h.returned hcalls hst hbody
    rw [Program.node, Program.node]
    dsimp only
    rcases hbody.matched_or_failed with
      ⟨tokens, next, next', hs, ht, hafter⟩ | ⟨next, next', hs, ht, -⟩
    · rw [hs, ht]
      exact .matched hafter
    · rw [hs, ht] at hback ⊢
      exact .matched_nothing hback
  | .script _ _, _, .script _ _, hin => h.script hin
  | .rule id, _, .rule _, _ => hcalls.inStep id

theorem runItems (h : p.Lockstep q n R f B) (hcalls : CallsInStep R f call other) {s₀ t₀ : Running}
    (hst₀ : R s₀ t₀) :
    (items : List Parser) → {items' : List Parser} → List.Forall₂ (Parser.Alike B) items items' →
      (∀ item ∈ items, p.Contains item) → (found : List Chain) →
      (s t : Running) → R s t → s₀.cursor.Extends s.cursor → t₀.cursor.Extends t.cursor →
        Paired R f (runItems p call s₀.cursor.checkpoint (found.map (List.map f)) items s)
          (runItems q other t₀.cursor.checkpoint found items' t)
  | [], _, .nil, _, found, s, t, hst, _, _ => by
    rw [Program.runItems, Program.runItems, ← map_found]
    exact .matched hst
  | item :: items, item' :: _, .cons halike halikes, hin, found, s, t, hst, hs, ht => by
    obtain ⟨hitem, hrest⟩ := List.forall_mem_cons.1 hin
    obtain ⟨hs', ht'⟩ := h.extended hcalls item item' s t
    rw [Program.runItems, Program.runItems]
    dsimp only
    rcases (h.node hcalls item halike hitem s t hst).matched_or_failed with
      ⟨tokens, next, next', hresult, hresult', hafter⟩ | ⟨next, next', hresult, hresult', hafter⟩
    · rw [hresult] at hs' ⊢
      rw [hresult'] at ht' ⊢
      exact h.runItems hcalls hst₀ items halikes hrest (tokens :: found) next next' hafter (hs.trans hs')
        (ht.trans ht')
    · rw [hresult] at hs' ⊢
      rw [hresult'] at ht' ⊢
      exact .failed (h.restored hst₀ hafter (hs.trans hs') (ht.trans ht'))

theorem runBranches (h : p.Lockstep q n R f B) (hcalls : CallsInStep R f call other) {s₀ t₀ : Running}
    (hst₀ : R s₀ t₀) :
    (branches : List (Option BitSet × Parser)) → {branches' : List (Option BitSet × Parser)} →
      List.Forall₂ B (branches.map Prod.fst) (branches'.map Prod.fst) →
      List.Forall₂ (Parser.Alike B) (branches.map Prod.snd) (branches'.map Prod.snd) →
      (∀ branch ∈ branches, p.Contains branch.2) →
      (s t : Running) → R s t → s₀.cursor.Extends s.cursor → t₀.cursor.Extends t.cursor →
        Paired R f (runBranches p call s₀.cursor.checkpoint branches s)
          (runBranches q other t₀.cursor.checkpoint branches' t)
  | [], [], _, _, _, s, t, hst, _, _ => by
    rw [Program.runBranches, Program.runBranches]
    exact .failed hst
  | (first, branch) :: branches, (first', branch') :: branches', hfirsts, halikes, hin, s, t, hst, hs, ht => by
    obtain ⟨hbranch, hrest⟩ := List.forall_mem_cons.1 hin
    obtain ⟨hfirst, hfirsts⟩ := List.forall₂_cons.1 hfirsts
    obtain ⟨halike, halikes⟩ := List.forall₂_cons.1 halikes
    obtain ⟨hverdict, htried⟩ := h.worthTrying hfirst hst
    have hcursor := cursor_worthTrying p first s
    have hcursor' := cursor_worthTrying q first' t
    rw [Program.runBranches, Program.runBranches]
    dsimp only at hverdict htried hcursor hcursor' ⊢
    generalize p.worthTrying first s = worth at hverdict htried hcursor ⊢
    generalize q.worthTrying first' t = worth' at hverdict htried hcursor' ⊢
    obtain ⟨verdict, tried⟩ := worth
    obtain ⟨verdict', tried'⟩ := worth'
    cases (hverdict : verdict = verdict')
    have hs' : s₀.cursor.Extends tried.cursor := hcursor ▸ hs
    have ht' : t₀.cursor.Extends tried'.cursor := hcursor' ▸ ht
    cases verdict with
    | false => exact h.runBranches hcalls hst₀ branches hfirsts halikes hrest tried tried' htried hs' ht'
    | true =>
      obtain ⟨hnext, hnext'⟩ := h.extended hcalls branch branch' tried tried'
      dsimp only
      rcases (h.node hcalls branch halike hbranch tried tried' htried).matched_or_failed with
        ⟨tokens, next, next', hresult, hresult', hafter⟩ | ⟨next, next', hresult, hresult', hafter⟩
      · rw [hresult, hresult']
        exact .matched hafter
      · rw [hresult] at hnext ⊢
        rw [hresult'] at hnext' ⊢
        have hback := hs'.trans hnext
        have hback' := ht'.trans hnext'
        exact h.runBranches hcalls hst₀ branches hfirsts halikes hrest _ _
          (h.restored hst₀ hafter hback hback') hback.returns_restore.toExtends hback'.returns_restore.toExtends

end

/-! ### Rules -/

/-- Rules are in step, however many more may be nested. -/
theorem callRule (h : p.Lockstep q n R f B) (room : Nat) :
    ∀ id, InStep R f (p.callRule room id) (q.callRule room id) := by
  induction room with
  | zero =>
    intro id s t hst
    rw [Program.callRule, Program.callRule]
    dsimp only
    obtain ⟨hnone, hnone'⟩ | ⟨rule, rule', hrule, hrule', halike⟩ := getElem?_of_forall₂ h.rules id
    · rw [hnone, hnone']
      exact .failed hst
    · rw [hrule, hrule']
      exact .failed (h.tooDeep halike.name hst)
  | succ room ih =>
    intro id s t hst
    have hcalls : CallsInStep R f (p.callRule room) (q.callRule room) :=
      ⟨ih, backtracks_callRule h.moves room, backtracks_callRule h.moves' room⟩
    rw [Program.callRule, Program.callRule, h.depthLimit]
    dsimp only
    obtain ⟨hnone, hnone'⟩ | ⟨rule, rule', hrule, hrule', halike⟩ := getElem?_of_forall₂ h.rules id
    · rw [hnone, hnone']
      exact .failed hst
    rw [hrule, hrule']
    dsimp only
    rw [halike.name]
    have hentered := h.traced (p.depthLimit - (room + 1))
      (fun start _ => "> " ++ rule.name ++ " @ " ++ toString start) hst hst
    have hbody := h.node hcalls rule.body halike.body ⟨rule, List.mem_of_getElem? hrule, .root⟩ _ _ hentered
    have hleft : ∀ (verdict : String) {next next' : Running}, R next next' →
        R (p.traced (p.depthLimit - (room + 1)) ("< " ++ rule.name ++ " " ++ verdict ++ " (" ++
            toString s.position ++ ".." ++ toString next.position ++ ")") next)
          (q.traced (p.depthLimit - (room + 1)) ("< " ++ rule.name ++ " " ++ verdict ++ " (" ++
            toString t.position ++ ".." ++ toString next'.position ++ ")") next') :=
      fun verdict _ _ hnext => h.traced (p.depthLimit - (room + 1)) (fun start stop => "< " ++ rule.name ++ " " ++
        verdict ++ " (" ++ toString start ++ ".." ++ toString stop ++ ")") hst hnext
    rcases hbody.matched_or_failed with
      ⟨tokens, next, next', hresult, hresult', hafter⟩ | ⟨next, next', hresult, hresult', hafter⟩
    · rw [hresult, hresult']
      dsimp only [Option.map_some]
      rw [h.wrapped tokens halike.name hst hafter]
      exact .matched (hleft "matched" hafter)
    · rw [hresult, hresult']
      exact .failed (hleft "failed" hafter)

end Lockstep

/-! ### Runs at one cursor -/

/-- A relation between states that are at the same cursor and report the same. It is kept by whatever leaves do. -/
structure Aligned (R : Running → Running → Prop) : Prop where
  cursor {s t : Running} : R s t → s.cursor = t.cursor
  report {s t : Running} : R s t → s.report = t.report
  movedTo {s t : Running} {c : Cursor} : R s t → s.cursor.Extends c → R (s.movedTo c) (t.movedTo c)
  reporting {s t : Running} (report : Report) : R s t → R { s with report } { t with report }
  record {s t : Running} {level : LogLevel} (message : String) : level ≠ .trace → R s t →
    R (s.record level message) (t.record level message)

namespace Aligned

variable {p q : Program} {R : Running → Running → Prop}

theorem position (h : Aligned R) {s t : Running} (hst : R s t) : s.position = t.position :=
  congrArg Cursor.position (h.cursor hst)

theorem reached (h : Aligned R) {s t : Running} (hst : R s t) (n : Nat) : R (s.reached n) (t.reached n) := by
  rw [Running.reached, Running.reached, ← h.report hst]
  exact h.reporting _ hst

theorem restore (h : Aligned R) {s t : Running} (hst : R s t) (origin : Checkpoint) :
    R (s.restore origin) (t.restore origin) := by
  rw [Running.restore, Running.restore, ← h.cursor hst]
  exact h.movedTo hst (Cursor.extends_restore _ _)

theorem matched (h : Aligned R) {s t : Running} (hst : R s t) {c : Cursor} (hc : s.cursor.Extends c)
    (tokens : Chain) (m n : Nat) :
    Paired R id (some tokens, ((s.reached m).movedTo c).reached n)
      (some tokens, ((t.reached m).movedTo c).reached n) :=
  ⟨by simp, h.reached (h.movedTo (h.reached hst m) hc) n⟩

theorem literalStep (h : Aligned R) (text : String) : InStep R id (literalStep text) (literalStep text) := by
  intro s t hst
  rw [Program.literalStep, Program.literalStep]
  rw [Running.cursor_reached, Running.cursor_reached, ← h.cursor hst, ← h.position hst]
  cases heat : s.cursor.eat? text with
  | none => exact .failed (h.reached hst _)
  | some moved => exact h.matched hst (Cursor.extends_eat? heat) _ _ _

theorem regexStep (h : Aligned R) (pattern : Pattern) :
    InStep R id (regexStep pattern) (regexStep pattern) := by
  intro s t hst
  rw [Program.regexStep, Program.regexStep]
  rw [Running.cursor_reached, Running.cursor_reached, ← h.cursor hst, ← h.position hst]
  rcases hmatch : pattern.match? s.cursor with _ | ⟨value, moved⟩
  · exact .failed (h.reached hst _)
  · obtain ⟨n, rfl⟩ := exists_advance_of_match? hmatch
    exact h.matched hst (Cursor.extends_advance _ _) _ _ _

theorem eofStep (h : Aligned R) : InStep R id eofStep eofStep := by
  intro s t hst
  rw [Program.eofStep, Program.eofStep]
  rw [Running.cursor_reached, Running.cursor_reached, ← h.cursor hst, ← h.position hst]
  exact ⟨by simp, h.reached hst _⟩

theorem indentation (h : Aligned R) : InStep R id indentation indentation := by
  intro s t hst
  rw [Program.indentation, Program.indentation]
  dsimp only
  rw [Running.cursor_reached, Running.cursor_reached, ← h.cursor hst, ← h.position hst]
  split
  · exact h.matched hst (Cursor.extends_setPosition _ _) _ _ _
  split
  · exact h.matched hst ((Cursor.extends_pushIndent _ _).trans (Cursor.extends_setPosition _ _)) _ _ _
  split
  · exact h.matched hst ((Cursor.extends_popIndents _ _).trans (Cursor.extends_setPosition _ _)) _ _ _
  · exact .failed (h.record _ LogLevel.noConfusion (h.reached hst _))

theorem scriptStep (h : Aligned R) (hscripts : q.scripts = p.scripts) (hmoves : p.scripts.OnlyMoves)
    (source : String) (handle : Nat) :
    InStep R id (p.scriptStep source handle) (q.scriptStep source handle) := by
  intro s t hst
  have hextends := (hmoves handle s.cursor).toExtends
  rw [Program.scriptStep, Program.scriptStep, hscripts, ← h.cursor hst]
  dsimp only
  generalize p.scripts.run handle s.cursor = result at hextends ⊢
  obtain ⟨reason | tokens, moved⟩ := result
  · exact .failed (h.restore (h.movedTo (h.record _ LogLevel.noConfusion hst) hextends) _)
  · exact ⟨by simp, h.reached (h.movedTo hst hextends) _⟩

theorem tooDeep (h : Aligned R) (hlimit : q.depthLimit = p.depthLimit) {rule rule' : CompiledRule}
    (hname : rule'.name = rule.name) {s t : Running} (hst : R s t) : R (p.tooDeep rule s) (q.tooDeep rule' t) := by
  have hflagged : ∀ {s t : Running}, R s t →
      R { s with report := { s.report with depthLimitReached := true } }
        { t with report := { t.report with depthLimitReached := true } } := by
    intro s t hst
    rw [← h.report hst]
    exact h.reporting _ hst
  rw [Program.tooDeep, Program.tooDeep, ← h.report hst, ← h.position hst, hname, hlimit]
  dsimp only
  split
  · exact hflagged hst
  · exact hflagged (h.record _ LogLevel.noConfusion hst)

theorem lockstep (h : Aligned R) {B : Option BitSet → Option BitSet → Prop}
    (hrules : List.Forall₂ (CompiledRule.Alike B) p.rules q.rules) (hlimit : q.depthLimit = p.depthLimit)
    (hscripts : q.scripts = p.scripts) (hmoves : p.scripts.OnlyMoves)
    (htree : q.config.parseTree = p.config.parseTree)
    (hworth : ∀ {first first' s t}, B first first' → R s t →
      (p.worthTrying first s).1 = (q.worthTrying first' t).1 ∧
        R (p.worthTrying first s).2 (q.worthTrying first' t).2)
    (htraced : ∀ {s t} depth message, R s t → R (p.traced depth message s) (q.traced depth message t)) :
    p.Lockstep q 0 R id B where
  rules := hrules
  depthLimit := hlimit
  moves := hmoves
  moves' := hscripts ▸ hmoves
  position hst := by rw [h.position hst, Nat.zero_add]
  length hst := by rw [h.cursor hst, Nat.zero_add]
  restored hst hnext _ _ := by
    rw [h.cursor hst]
    exact h.restore hnext _
  worthTrying := hworth
  literal _ := h.literalStep _
  regex _ := h.regexStep _
  eof := h.eofStep
  indentation := h.indentation
  script _ := h.scriptStep hscripts hmoves _ _
  traced depth message hst hnext := by
    rw [h.position hst, h.position hnext]
    exact htraced depth _ hnext
  tooDeep hname hst := h.tooDeep hlimit hname hst
  wrapped tokens hname hst hnext := by
    rw [h.position hst, h.cursor hnext, List.map_id, List.map_id, wrap, wrap, hasOwnToken, hasOwnToken, hname,
      htree]

end Aligned

end Program

end PegGrammar
