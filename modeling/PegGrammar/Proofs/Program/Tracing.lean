import PegGrammar.Proofs.Program.Accrual
import PegGrammar.Proofs.Program.Lockstep

/-!
# Traces are brackets

With tracing on, a run records where each rule is tried and where it ends. These records are brackets, one inside of
the other as the rules are, each pair as far to the right as there are pairs around it; whatever is taken back in a
run, a record is not, so the brackets of rules that were tried in vain are among them. Such a pair ends where it
began, because a rule that fails leaves the cursor where it was.

The first rule that fails because of the limit on nesting gives a warning, and sets a flag that is never taken back.

Nothing that is recorded is ever read, so without tracing a run is the same but for the missing brackets.
-/

namespace PegGrammar

/-! ### Records -/

namespace LogRecord

/-- What is recorded where a rule is tried. -/
def opening (depth : Nat) (name : String) (start : Nat) : LogRecord :=
  ⟨.trace, parser, Program.margin depth ++ ("> " ++ name ++ " @ " ++ toString start)⟩

/-- What is recorded where a rule that was tried has matched or failed. -/
def closing (depth : Nat) (name : String) (matched : Bool) (start stop : Nat) : LogRecord :=
  ⟨.trace, parser, Program.margin depth ++ ("< " ++ name ++ " " ++ (if matched then "matched" else "failed") ++ " ("
    ++ toString start ++ ".." ++ toString stop ++ ")")⟩

/-- The warning of a rule that fails because of the limit. -/
def tooDeep (limit : Nat) (name : String) (position : Nat) : LogRecord :=
  ⟨.warn, parser, "rule `" ++ name ++ "` nested more than " ++ toString limit ++ " deep at position "
    ++ toString position ++ "; treating it as a failure"⟩

def traces (records : List LogRecord) : List LogRecord := records.filter (·.level = .trace)

def warnings (records : List LogRecord) : List LogRecord := records.filter (·.level = .warn)

/-- Records that are brackets, inside of `depth` others: what opens is closed with the same margin, name and start,
and what failed is closed where it was opened. -/
inductive Bracketed (names : List String) (limit : Nat) : Nat → List LogRecord → Prop
  | nothing (depth : Nat) : Bracketed names limit depth []
  | pair {depth start stop : Nat} {name : String} {matched : Bool} {inner rest : List LogRecord} :
    name ∈ names → depth < limit → (matched = false → stop = start) →
    Bracketed names limit (depth + 1) inner → Bracketed names limit depth rest →
    Bracketed names limit depth
      (opening depth name start :: inner ++ closing depth name matched start stop :: rest)

/-- The warnings while the flag goes from one value to another: one when it is set, and none otherwise. -/
inductive Warned (names : List String) (limit : Nat) : Bool → List LogRecord → Bool → Prop
  | never (flag : Bool) : Warned names limit flag [] flag
  | once {name : String} (position : Nat) : name ∈ names →
    Warned names limit false [tooDeep limit name position] true

variable {names : List String} {limit : Nat}

theorem Bracketed.append {depth : Nat} {records more : List LogRecord}
    (h : Bracketed names limit depth records) (hmore : Bracketed names limit depth more) :
    Bracketed names limit depth (records ++ more) := by
  induction h with
  | nothing => exact hmore
  | pair hname hdepth hback hinner _ _ ih =>
    have hpair := Bracketed.pair hname hdepth hback hinner (ih hmore)
    simpa using hpair

theorem Warned.append {a b c : Bool} {records more : List LogRecord} (h : Warned names limit a records b)
    (hmore : Warned names limit b more c) : Warned names limit a (records ++ more) c := by
  cases h with
  | never => exact hmore
  | once position hname =>
    cases hmore
    exact .once position hname

theorem traces_brackets (depth start stop : Nat) (name : String) (matched : Bool) (inner : List LogRecord) :
    traces (opening depth name start :: inner ++ [closing depth name matched start stop]) =
      opening depth name start :: traces inner ++ [closing depth name matched start stop] := by
  simp [traces, opening, closing]

theorem warnings_brackets (depth start stop : Nat) (name : String) (matched : Bool) (inner : List LogRecord) :
    warnings (opening depth name start :: inner ++ [closing depth name matched start stop]) = warnings inner := by
  simp [warnings, opening, closing]

end LogRecord

open LogRecord (Bracketed Warned opening closing traces warnings traces_brackets warnings_brackets)

/-! ### What a run records -/

/-- What is recorded between two states is brackets and at most one warning. -/
def Running.Told (names : List String) (limit depth : Nat) (s next : Running) : Prop :=
  ∃ records, next.log = records.reverse ++ s.log ∧ Bracketed names limit depth (traces records) ∧
    Warned names limit s.report.depthLimitReached (warnings records) next.report.depthLimitReached

namespace Program

variable {p : Program}

/-- The same program, with tracing on or off. -/
def withTrace (p : Program) (trace : Bool) : Program := { p with config := { p.config with trace } }

def ruleNames (p : Program) : List String := p.rules.map CompiledRule.name

theorem accrual_told (names : List String) (limit depth : Nat) :
    Accrual (Running.Told names limit depth) where
  trans := by
    rintro s mid next ⟨records, hlog, hbrackets, hwarned⟩ ⟨more, hmore, hbrackets', hwarned'⟩
    refine ⟨records ++ more, ?_, ?_, ?_⟩
    · simp [hmore, hlog]
    · rw [traces, List.filter_append]
      exact hbrackets.append hbrackets'
    · rw [warnings, List.filter_append]
      exact hwarned.append hwarned'
  silent := by
    intro s next hreport hlog
    exact ⟨[], hlog, .nothing depth, hreport ▸ .never _⟩
  reached s n := ⟨[], rfl, .nothing depth, .never _⟩
  noted s message := ⟨[⟨.debug, LogRecord.parser, message⟩], rfl, .nothing depth, .never _⟩

theorem told_tooDeep (p : Program) {rule : CompiledRule} (hrule : rule ∈ p.rules) (depth : Nat) (s : Running) :
    s.Told p.ruleNames p.depthLimit depth (p.tooDeep rule s) := by
  rw [tooDeep]
  cases hflag : s.report.depthLimitReached with
  | true =>
    refine ⟨[], by simp, .nothing depth, ?_⟩
    rw [hflag]
    exact .never true
  | false =>
    have hname : rule.name ∈ p.ruleNames := List.mem_map_of_mem hrule
    refine ⟨[.tooDeep p.depthLimit rule.name s.position], by simp [Running.record, LogRecord.tooDeep],
      .nothing depth, ?_⟩
    rw [hflag]
    exact .once s.position hname

theorem log_traced (htrace : p.config.trace = true) (depth : Nat) (message : String) (s : Running) :
    (p.traced depth message s).log = ⟨.trace, LogRecord.parser, margin depth ++ message⟩ :: s.log := by
  simp [traced, htrace, Running.record]

theorem position_traced (p : Program) (depth : Nat) (message : String) (s : Running) :
    (p.traced depth message s).position = s.position := by
  rw [Running.position, cursor_traced]
  rfl

/-- A rule that is tried puts brackets around what is recorded inside of it. -/
theorem brackets_callRule (htrace : p.config.trace = true) {names : List String} {limit room depth id : Nat}
    {rule : CompiledRule} (hrule : p.rules[id]? = some rule) (hdepth : depth = p.depthLimit - (room + 1))
    (hcall : ∀ id, Accrues (Running.Told names limit (depth + 1)) (p.callRule room id)) (s : Running) :
    ∃ inner, Bracketed names limit (depth + 1) (traces inner) ∧
      Warned names limit s.report.depthLimitReached (warnings inner)
        (p.callRule (room + 1) id s).2.report.depthLimitReached ∧
      (p.callRule (room + 1) id s).2.log = (opening depth rule.name s.position :: inner ++
        [closing depth rule.name (p.callRule (room + 1) id s).1.isSome s.position
          (p.callRule (room + 1) id s).2.position]).reverse ++ s.log := by
  subst hdepth
  obtain ⟨inner, hlog, hbrackets, hwarned⟩ := (accrual_told names limit _).node hcall rule.body
    (p.traced (p.depthLimit - (room + 1)) ("> " ++ rule.name ++ " @ " ++ toString s.position) s)
  rw [log_traced htrace] at hlog
  rw [report_traced] at hwarned
  rw [callRule]
  dsimp only
  rw [hrule]
  dsimp only
  generalize node p (p.callRule room) rule.body _ = result at hlog hwarned ⊢
  refine ⟨inner, hbrackets, ?_, ?_⟩
  · rwa [report_traced]
  · rw [position_traced, log_traced htrace, hlog]
    simp [opening, closing]

/-- With tracing on, whatever a rule records is brackets, and it gives the warning if it is the first to fail
because of the limit. -/
theorem accrues_callRule (hscripts : p.scripts.OnlyMoves) (htrace : p.config.trace = true) {room : Nat}
    (hroom : room ≤ p.depthLimit) (id : Nat) :
    Accrues (Running.Told p.ruleNames p.depthLimit (p.depthLimit - room)) (p.callRule room id) := by
  induction room generalizing id with
  | zero =>
    intro s
    rw [callRule]
    split
    · exact (accrual_told _ _ _).refl s
    · rename_i rule hrule
      exact p.told_tooDeep (List.mem_of_getElem? hrule) _ s
  | succ room ih =>
    intro s
    cases hrule : p.rules[id]? with
    | none =>
      rw [callRule, hrule]
      exact (accrual_told _ _ _).refl s
    | some rule =>
      have hname : rule.name ∈ p.ruleNames := List.mem_map_of_mem (List.mem_of_getElem? hrule)
      have hinside : p.depthLimit - room = p.depthLimit - (room + 1) + 1 := by omega
      have hcall := hinside ▸ ih (Nat.le_of_succ_le hroom)
      obtain ⟨inner, hbrackets, hwarned, hlog⟩ := brackets_callRule htrace hrule rfl hcall s
      refine ⟨_, hlog, ?_, ?_⟩
      · rw [traces_brackets]
        refine .pair hname (by omega) (fun hfailed => ?_) hbrackets (.nothing _)
        have hnone : (p.callRule (room + 1) id s).1 = none := by simpa using hfailed
        have hback := (backtracks_callRule hscripts (room + 1) id s).returned hnone
        exact congrArg Checkpoint.position hback.checkpoint_eq
      · rwa [warnings_brackets]

/-! ### Running without tracing -/

end Program

namespace Running

/-- The same state of a run without tracing: only the brackets are missing. -/
structure Untraced (s t : Running) : Prop where
  cursor : s.cursor = t.cursor
  report : s.report = t.report
  starting : s.starting = t.starting
  log : s.log.filter (·.level ≠ .trace) = t.log

end Running

namespace Program

open Running (Untraced)

variable {p : Program}

theorem untraced_worthTrying (first : Option BitSet) {s t : Running} (h : s.Untraced t) :
    (p.worthTrying first s).1 = (p.worthTrying first t).1 ∧
      (p.worthTrying first s).2.Untraced (p.worthTrying first t).2 := by
  cases first with
  | none => exact ⟨rfl, h⟩
  | some first =>
    rw [worthTrying, worthTrying, mayStart, mayStart, h.starting, Running.position, Running.position, h.cursor]
    split
    · split
      · exact ⟨rfl, h⟩
      · exact ⟨rfl, rfl, h.report, rfl, h.log⟩
    · exact ⟨rfl, rfl, h.report, rfl, h.log⟩

theorem aligned_untraced : Aligned Untraced where
  cursor h := h.cursor
  report h := h.report
  movedTo h _ := ⟨rfl, h.report, h.starting, h.log⟩
  reporting _ h := ⟨h.cursor, rfl, h.starting, h.log⟩
  record _ hlevel h := ⟨h.cursor, h.report, h.starting, by simp [Running.record, hlevel, ← h.log]⟩

/-- With tracing and without, two runs do the same, because nothing that is recorded is read. -/
theorem lockstep_untraced (hscripts : p.scripts.OnlyMoves) :
    (p.withTrace true).Lockstep (p.withTrace false) 0 Untraced id Eq :=
  aligned_untraced.lockstep (CompiledRule.alike_refl p.rules) rfl rfl hscripts rfl
    (fun hfirst h => hfirst ▸ untraced_worthTrying (p := p) _ h)
    (fun _ _ h => ⟨h.cursor, h.report, h.starting, h.log⟩)

/-! ### Runs -/

theorem runRule_withTrace (hscripts : p.scripts.OnlyMoves) (id : Nat) (cursor : Cursor) :
    ((p.withTrace true).runRule id cursor).outcome = ((p.withTrace false).runRule id cursor).outcome ∧
      ((p.withTrace true).runRule id cursor).cursor = ((p.withTrace false).runRule id cursor).cursor ∧
      ((p.withTrace true).runRule id cursor).report = ((p.withTrace false).runRule id cursor).report ∧
      ((p.withTrace false).runRule id cursor).log =
        ((p.withTrace true).runRule id cursor).log.filter (·.level ≠ .trace) := by
  have hstart : (Running.start cursor).Untraced (.start cursor) := ⟨rfl, rfl, rfl, rfl⟩
  obtain ⟨houtcome, hafter⟩ := (lockstep_untraced hscripts).callRule p.depthLimit id _ _ hstart
  rw [List.map_id_fun, Option.map_id_fun, id_eq] at houtcome
  refine ⟨houtcome, hafter.cursor, hafter.report, ?_⟩
  show ((p.withTrace false).callRule p.depthLimit id (.start cursor)).2.log.reverse =
    ((p.withTrace true).callRule p.depthLimit id (.start cursor)).2.log.reverse.filter (·.level ≠ .trace)
  rw [List.filter_reverse, hafter.log]

theorem told_runRule (hscripts : p.scripts.OnlyMoves) (htrace : p.config.trace = true) (id : Nat) (cursor : Cursor) :
    Bracketed p.ruleNames p.depthLimit 0 (traces (p.runRule id cursor).log) ∧
      Warned p.ruleNames p.depthLimit false (warnings (p.runRule id cursor).log)
        (p.runRule id cursor).report.depthLimitReached := by
  obtain ⟨records, hlog, hbrackets, hwarned⟩ :=
    accrues_callRule hscripts htrace (Nat.le_refl _) id (.start cursor)
  have hrecords : (p.runRule id cursor).log = records := by
    show (p.callRule p.depthLimit id (.start cursor)).2.log.reverse = records
    rw [hlog]
    simp [Running.start]
  rw [Nat.sub_self] at hbrackets
  rw [hrecords]
  exact ⟨hbrackets, hwarned⟩

theorem brackets_runRule (hscripts : p.scripts.OnlyMoves) (htrace : p.config.trace = true) {id : Nat}
    {rule : CompiledRule} (hrule : p.rules[id]? = some rule) (hlimit : 0 < p.depthLimit) (cursor : Cursor) :
    ∃ inner, Bracketed p.ruleNames p.depthLimit 1 inner ∧
      traces (p.runRule id cursor).log = opening 0 rule.name cursor.position :: inner ++
        [closing 0 rule.name (p.runRule id cursor).outcome.isSome cursor.position
          (p.runRule id cursor).cursor.position] := by
  obtain ⟨room, hroom⟩ := Nat.exists_eq_add_one_of_ne_zero (Nat.pos_iff_ne_zero.1 hlimit)
  have hcall : ∀ id, Accrues (Running.Told p.ruleNames p.depthLimit (0 + 1)) (p.callRule room id) := by
    have hinside : p.depthLimit - room = 0 + 1 := by omega
    exact hinside ▸ accrues_callRule hscripts htrace (by omega)
  obtain ⟨inner, hbrackets, -, hlog⟩ := brackets_callRule htrace hrule (by omega) hcall (.start cursor)
  refine ⟨traces inner, hbrackets, ?_⟩
  show traces (p.callRule p.depthLimit id (.start cursor)).2.log.reverse = _
  rw [runRule, hroom, hlog, Running.start, List.append_nil, List.reverse_reverse]
  exact traces_brackets _ _ _ _ _ _

/-- A run with tracing and one without have the same outcome, end at the same cursor and report the same. The traces
are brackets, and the outermost are those of the rule that is run. There is a warning just if the report says that a
rule failed because of the limit, and never another. It is two runs that are compared, so it matters that scripts are
functions. -/
theorem traces_bracketed (p : Program) (hscripts : p.scripts.OnlyMoves) (id : Nat) (cursor : Cursor) :
    let loud := (p.withTrace true).runRule id cursor
    let quiet := (p.withTrace false).runRule id cursor
    (loud.outcome = quiet.outcome ∧ loud.cursor = quiet.cursor ∧ loud.report = quiet.report ∧
      quiet.log = loud.log.filter (·.level ≠ .trace)) ∧
    Bracketed p.ruleNames p.depthLimit 0 (traces loud.log) ∧
    (∀ rule, p.rules[id]? = some rule → 0 < p.depthLimit → ∃ inner,
      Bracketed p.ruleNames p.depthLimit 1 inner ∧
        traces loud.log = opening 0 rule.name cursor.position :: inner ++
          [closing 0 rule.name loud.outcome.isSome cursor.position loud.cursor.position]) ∧
    Warned p.ruleNames p.depthLimit false (warnings loud.log) loud.report.depthLimitReached ∧
    Warned p.ruleNames p.depthLimit false (warnings quiet.log) quiet.report.depthLimitReached := by
  intro loud quiet
  have hsame := runRule_withTrace hscripts id cursor
  obtain ⟨hbrackets, hwarned⟩ :=
    told_runRule (p := p.withTrace true) hscripts rfl id cursor
  refine ⟨hsame, hbrackets, ?_, hwarned, ?_⟩
  · intro rule hrule hlimit
    exact brackets_runRule (p := p.withTrace true) hscripts rfl hrule hlimit cursor
  · have hwarnings : warnings quiet.log = warnings loud.log := by
      rw [hsame.2.2.2, warnings, warnings, List.filter_filter]
      refine List.filter_congr fun record _ => ?_
      cases record.level <;> rfl
    rw [hwarnings, ← hsame.2.2.1]
    exact hwarned

/-- Parentheses around a letter, two levels of rules deep at most. -/
def parentheses : Program where
  rules := [⟨"value", .choice [(none, .sequence [.literal "(", .rule 0, .literal ")"]), (none, .literal "x")]⟩]
  start := 0
  nesting := 3
  literals := .empty 0
  scripts := (Script.stockEngine []).toEngine
  config := { Config.default with maxDepth := 2 }
  fingerprint := ⟨[]⟩

/-- One pair of parentheses is matched, a second one is too deep. -/
theorem traces_bracketed_parentheses :
    parentheses.scripts.OnlyMoves ∧
      traces ((parentheses.withTrace true).runRule 0 (.start "(x)")).log =
        [opening 0 "value" 0, opening 1 "value" 1, closing 1 "value" true 1 2, closing 0 "value" true 0 3] ∧
      warnings ((parentheses.withTrace true).runRule 0 (.start "((x))")).log =
        [.tooDeep 2 "value" 2] ∧
      Bracketed parentheses.ruleNames parentheses.depthLimit 0
        (traces ((parentheses.withTrace true).runRule 0 (.start "(x)")).log) ∧
      ((parentheses.withTrace true).runRule 0 (.start "((x))")).outcome =
        ((parentheses.withTrace false).runRule 0 (.start "((x))")).outcome := by
  have hscripts : parentheses.scripts.OnlyMoves := Script.onlyMoves_stockEngine
  refine ⟨hscripts, by decide +kernel, by decide +kernel, ?_, ?_⟩
  · exact (traces_bracketed parentheses hscripts 0 (.start "(x)")).2.1
  · exact (traces_bracketed parentheses hscripts 0 (.start "((x))")).1.1

end Program

end PegGrammar
