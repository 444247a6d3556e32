import PegGrammar.Proofs.Compile.Descent
import PegGrammar.Proofs.Compile.Table

/-!
# What a session hands out

A session goes on after an error, and so do its rules: a name that was entered keeps its number, and has no body if
the error came before it was finished. The next call that comes to the name gets the number all the same. So what a
call hands out need not be finished, but what is not was left behind by a call that failed.

It is enough to follow one step: it adds rules at the end, whose bodies call rules of the table, and if it
succeeded it has finished all that it added. So a rule without a body was added by a call that failed.
-/

namespace PegGrammar

open Compiling

/-- A rule is reached from a parser by calls, through the bodies that a table has. -/
inductive RuleTable.Reaches (t : RuleTable) : Parser → Nat → Prop
  | called {q : Parser} {id : Nat} : (Parser.rule id).Within q → Reaches t q id
  | through {q body : Parser} {id other : Nat} {name : String} : (Parser.rule id).Within q →
      t.rules[id]? = some (name, some body) → Reaches t body other → Reaches t q other

namespace Session

/-- What a session is told to compile: a definition, under a name or, if it is empty, under none. -/
structure Call where
  definition : Rule
  name : String

def Call.run (c : Compiler) (call : Call) (s : Session) : Except CompileError Parser × Session :=
  s.compileRule c call.definition call.name

/-- A session after some calls, whatever came of them. -/
def after (c : Compiler) (calls : List Call) : Session :=
  calls.foldl (fun s call => (call.run c s).2) .start

/-- A rule that was added by a call that failed. -/
def Abandoned (c : Compiler) (calls : List Call) (id : Nat) : Prop :=
  ∃ front call back error, calls = front ++ call :: back ∧ (call.run c (after c front)).1 = .error error ∧
    (after c front).table.size ≤ id ∧ id < (after c (front ++ [call])).table.size

/-! ### One step -/

/-- A body, if there is one, calls rules below a number. -/
def CallsBelow (bound : Nat) (body : Option Parser) : Prop :=
  ∀ q, body = some q → ∀ id, (Parser.rule id).Within q → id < bound

/-- A step adds rules at the end, which are finished if it succeeded. -/
structure Builds (c : Compiler) (succeeded : Bool) (s t : Session) : Prop where
  rules : ∃ added : List (String × Option Parser), t.table.rules = s.table.rules ++ added ∧
    (∀ entry ∈ added, CallsBelow t.table.size entry.2) ∧
    (succeeded = true → ∀ entry ∈ added, entry.2 ≠ none)
  leads : c.Analysed s.leads s.literals → c.Analysed t.leads t.literals

variable {c : Compiler} {s t u : Session} {succeeded : Bool}

theorem Builds.size_le (h : Builds c succeeded s t) : s.table.size ≤ t.table.size := by
  obtain ⟨added, hrules, -⟩ := h.rules
  rw [RuleTable.size, RuleTable.size, hrules, List.length_append]
  exact Nat.le_add_right _ _

theorem CallsBelow.mono {bound more : Nat} {body : Option Parser} (h : CallsBelow bound body)
    (hle : bound ≤ more) : CallsBelow more body :=
  fun q hq id hcall => Nat.lt_of_lt_of_le (h q hq id hcall) hle

theorem Builds.of_table_eq (htable : t.table = s.table)
    (hleads : c.Analysed s.leads s.literals → c.Analysed t.leads t.literals) :
    Builds c succeeded s t := by
  refine ⟨⟨[], ?_, fun entry hentry => ?_, fun _ entry hentry => ?_⟩, hleads⟩
  · rw [htable, List.append_nil]
  · cases hentry
  · cases hentry

theorem Builds.trans (hst : Builds c true s t) (htu : Builds c succeeded t u) :
    Builds c succeeded s u := by
  obtain ⟨first, hfirst, hcalls, hfinished⟩ := hst.rules
  obtain ⟨second, hsecond, hmore, hlast⟩ := htu.rules
  refine ⟨⟨first ++ second, ?_, fun entry hentry => ?_, fun hok entry hentry => ?_⟩,
    htu.leads ∘ hst.leads⟩
  · rw [hsecond, hfirst, List.append_assoc]
  · rcases List.mem_append.1 hentry with hentry | hentry
    · exact (hcalls entry hentry).mono htu.size_le
    · exact hmore entry hentry
  · rcases List.mem_append.1 hentry with hentry | hentry
    · exact hfinished rfl entry hentry
    · exact hlast hok entry hentry

theorem Builds.kept (h : Builds c succeeded s t) {name : String} {id : Nat}
    (hid : s.table.id? name = some id) :
    t.table.id? name = some id ∧ t.table.rules[id]? = s.table.rules[id]? := by
  obtain ⟨added, hrules, -⟩ := h.rules
  rw [RuleTable.id?] at hid ⊢
  have hlt := (List.findIdx?_eq_some_iff_getElem.1 hid).1
  rw [hrules, List.findIdx?_append, hid, List.getElem?_append_left hlt]
  exact ⟨rfl, rfl⟩

end Session

namespace Compiling

open Session

variable {c : Compiler} {α : Type}

/-- What a step adds, it finishes, unless it fails. -/
def Tidy (c : Compiler) (m : Compiling α) : Prop :=
  ∀ s, c.Analysed s.leads s.literals → Builds c (m.result s).1.isOk s (m.result s).2

theorem Passive.tidy {m : Compiling α} (hm : Passive m) : Tidy c m := by
  intro s hs
  rcases hresult : m.result s with ⟨outcome, t⟩
  obtain ⟨htable, hleads, hliterals⟩ := hm.unchanged hresult
  refine .of_table_eq htable fun _ => ?_
  rw [hleads, hliterals]
  exact hs

theorem tidy_branchLiterals (r : Rule) : Tidy c (branchLiterals c r) := by
  intro s hs
  obtain ⟨first, t, hresult, htable⟩ := exists_result_branchLiterals c r s
  rw [hresult]
  exact .of_table_eq htable fun hs => .next hs hresult

theorem Tidy.bind {β : Type} {m : Compiling α} {k : α → Compiling β} (hm : Tidy c m)
    (hk : ∀ a, Tidy c (k a)) : Tidy c (m >>= k) := by
  intro s hs
  have hfirst := hm s hs
  rw [result_bind]
  rcases hresult : m.result s with ⟨error | a, t⟩
  · rw [hresult] at hfirst
    exact hfirst
  · rw [hresult] at hfirst
    exact hfirst.trans (hk a t (hfirst.leads hs))

theorem tidy_congruence : Congruence (fun {_} m _ => Tidy c m) where
  pure a := (passive_pure a).tidy
  bind hm hk := hm.bind hk

theorem tidy_body {ofRule : Rule → String → Compiling Parser}
    (hofRule : ∀ definition name, Tidy c (ofRule definition name)) (definition : Rule) :
    Tidy c (body c ofRule definition) := by
  refine tidy_congruence.body ofRule ofRule tidy_branchLiterals definition
    (fun node _ => (passive_introduction node).tidy) fun node _ hparts => ?_
  by_cases hreference : ∃ text, node.shape = .reference text
  · obtain ⟨text, htext⟩ := hreference
    rw [htext]
    change Tidy c (reference c ofRule text)
    rw [reference_eq]
    split
    · exact ((passive_note _).bind fun _ => passive_pure _).tidy
    · split
      · exact hofRule _ _
      · exact (passive_undefined c text).tidy
  · exact (passive_leaf hparts (fun text h => hreference ⟨text, h⟩) ofRule ofRule).1.tidy

/-- A name that is new is the first of the rules that are added. It is finished with them. -/
theorem tidy_named (hreplaced : ∀ entry ∈ c.overrides, entry.2.CallsNothing) {definition : Rule}
    {compile : Compiling Parser} (hfaithful : c.Faithful compile definition) (hcompile : Tidy c compile)
    (name : String) : Tidy c (named name compile) := by
  intro s hs
  rw [result_named]
  cases hid : s.table.id? name with
  | some id => exact .of_table_eq rfl fun h => h
  | none =>
    dsimp only
    have hinner := hcompile (s.entering name) hs
    rcases hresult : compile.result (s.entering name) with ⟨error | body, t⟩
    · rw [hresult] at hinner
      obtain ⟨⟨added, hrules, hcalls, -⟩, hleads⟩ := hinner
      refine ⟨⟨(name, none) :: added, hrules.trans (List.append_assoc _ _ _), fun entry hentry => ?_, nofun⟩, hleads⟩
      rcases List.mem_cons.1 hentry with rfl | hentry
      · intro q hq
        cases hq
      · exact hcalls entry hentry
    · rw [hresult] at hinner
      obtain ⟨⟨added, hrules, hcalls, hfinished⟩, hleads⟩ := hinner
      have hstored := rules_keeping hrules body
      have hsize : (t.leaving.keeping s.table.size name body).table.size = t.table.size :=
        List.length_modify _ _ _
      refine ⟨⟨(name, some body) :: added, hstored, fun entry hentry => ?_, fun _ entry hentry => ?_⟩, hleads⟩
      · rw [hsize]
        rcases List.mem_cons.1 hentry with rfl | hentry
        · intro q hq id hcall
          cases hq
          have hlt := (hfaithful (s.entering name) body t hs hresult).renders.lt_of_calls hreplaced hcall
          rwa [names, List.length_map] at hlt
        · exact hcalls entry hentry
      · rcases List.mem_cons.1 hentry with rfl | hentry
        · exact Option.some_ne_none body
        · exact hfinished rfl entry hentry

theorem lt_size_of_named {compile : Compiling Parser} (hcompile : Tidy c compile) {name : String}
    {s t : Session} (hs : c.Analysed s.leads s.literals) {id : Nat}
    (h : (named name compile).result s = (.ok id, t)) : id < t.table.size := by
  rw [result_named] at h
  split at h
  · rename_i hid
    cases h
    exact (List.findIdx?_eq_some_iff_getElem.1 hid).1
  · have hinner := (hcompile (s.entering name) hs).size_le
    split at h
    · cases h
    · rename_i body inner hresult
      cases h
      rw [hresult] at hinner
      change s.table.rules.length < (inner.table.rules.modify _ _).length
      rw [List.length_modify]
      have hentered : (s.entering name).table.size = s.table.rules.length + 1 := List.length_append
      rw [hentered] at hinner
      exact hinner

theorem tidy_rule (hreplaced : ∀ entry ∈ c.overrides, entry.2.CallsNothing) (fuel : Nat) (definition : Rule)
    (name : String) : Tidy c (rule c fuel definition name) := by
  induction fuel generalizing definition name with
  | zero => exact (passive_fail _).tidy
  | succ fuel ih =>
    have hbody := tidy_body ih definition
    rw [rule]
    split
    · exact hbody
    · exact (tidy_named hreplaced (faithful_body (faithful_rule fuel) definition) hbody name).bind
        fun _ => (passive_pure _).tidy

theorem lt_size_of_rule (hreplaced : ∀ entry ∈ c.overrides, entry.2.CallsNothing) {fuel : Nat}
    {definition : Rule} {name : String} {s t : Session} {q : Parser} (hs : c.Analysed s.leads s.literals)
    (h : (rule c fuel definition name).result s = (.ok q, t)) {id : Nat}
    (hcall : (Parser.rule id).Within q) : id < t.table.size := by
  cases fuel with
  | zero => cases h
  | succ fuel =>
    rw [rule] at h
    split at h
    · have hcompiles := faithful_body (faithful_rule (c := c) fuel) definition s q t hs h
      have hlt := hcompiles.renders.lt_of_calls hreplaced hcall
      rwa [names, List.length_map] at hlt
    · obtain ⟨known, mid, hnamed, h⟩ := result_bind_eq_ok.1 h
      obtain ⟨rfl, rfl⟩ := result_pure_eq_ok.1 h
      cases hcall with
      | part hpart => cases hpart
      | root => exact lt_size_of_named (tidy_body (tidy_rule hreplaced fuel) definition) hs hnamed

end Compiling

namespace Session

variable {c : Compiler}

theorem after_snoc (calls : List Call) (call : Call) :
    after c (calls ++ [call]) = (call.run c (after c calls)).2 := by
  rw [after, List.foldl_append]
  rfl

theorem Call.builds (hreplaced : ∀ entry ∈ c.overrides, entry.2.CallsNothing) (call : Call) {s : Session}
    (hs : c.Analysed s.leads s.literals) : Builds c (call.run c s).1.isOk s (call.run c s).2 :=
  tidy_rule hreplaced _ call.definition call.name s hs

theorem Abandoned.snoc {calls : List Call} {id : Nat} (h : Abandoned c calls id) (call : Call) :
    Abandoned c (calls ++ [call]) id := by
  obtain ⟨front, failed, back, error, rfl, hfailed⟩ := h
  exact ⟨front, failed, back ++ [call], error, by rw [List.append_assoc, List.cons_append], hfailed⟩

/-- Only rules of the table are reached, if bodies call no others. -/
theorem lt_size_of_reaches {table : RuleTable} {q : Parser} {id : Nat}
    (h : table.Reaches q id) (hclosed : ∀ entry ∈ table.rules, CallsBelow table.size entry.2)
    (hq : ∀ called, (Parser.rule called).Within q → called < table.size) : id < table.size := by
  induction h with
  | called hcall => exact hq _ hcall
  | through _ hbody _ ih => exact ih (hclosed _ (List.mem_of_getElem? hbody) _ rfl)

/-- A session in which it is known of every rule without a body where it comes from. -/
structure Accounted (c : Compiler) (calls : List Call) (s : Session) : Prop where
  analysed : c.Analysed s.leads s.literals
  closed : ∀ entry ∈ s.table.rules, CallsBelow s.table.size entry.2
  abandoned : ∀ id name, s.table.rules[id]? = some (name, none) → Abandoned c calls id

theorem accounted_after (hreplaced : ∀ entry ∈ c.overrides, entry.2.CallsNothing) (calls : List Call) :
    Accounted c calls (after c calls) := by
  induction calls using List.reverseRecOn with
  | nil => exact ⟨.start, nofun, nofun⟩
  | append_singleton calls call ih =>
    have hbuilds := call.builds hreplaced ih.analysed
    obtain ⟨added, hrules, hcalls, hfinished⟩ := hbuilds.rules
    have hnext := after_snoc (c := c) calls call
    refine ⟨?_, fun entry hentry => ?_, fun id name hid => ?_⟩
    · rw [hnext]
      exact hbuilds.leads ih.analysed
    · rw [hnext] at hentry ⊢
      rw [hrules] at hentry
      rcases List.mem_append.1 hentry with hentry | hentry
      · exact (ih.closed entry hentry).mono hbuilds.size_le
      · exact hcalls entry hentry
    · by_cases hold : id < (after c calls).table.size
      · rw [hnext, hrules, List.getElem?_append_left hold] at hid
        exact (ih.abandoned id name hid).snoc call
      · have hlt := (List.getElem?_eq_some_iff.1 hid).1
        rw [hnext, hrules, List.getElem?_append_right (Nat.le_of_not_lt hold)] at hid
        rcases houtcome : (call.run c (after c calls)).1 with error | q
        · exact ⟨calls, call, [], error, rfl, houtcome, Nat.le_of_not_lt hold, hlt⟩
        · rw [houtcome] at hfinished
          exact (hfinished rfl _ (List.mem_of_getElem? hid) rfl).elim

/-- Whatever was compiled before, and whatever of it failed: if a call succeeds, every rule that can be reached
from what it hands out is in the table, and finished, unless it was left behind by a call that failed. -/
theorem handed_out_finished (hreplaced : ∀ entry ∈ c.overrides, entry.2.CallsNothing) (calls : List Call)
    (call : Call) {q : Parser} {t : Session} (h : call.run c (after c calls) = (.ok q, t)) {id : Nat}
    (hreach : t.table.Reaches q id) :
    ∃ name body, t.table.rules[id]? = some (name, body) ∧ (body = none → Abandoned c calls id) := by
  have hbefore := accounted_after hreplaced calls
  have hlast := accounted_after hreplaced (calls ++ [call])
  rw [after_snoc, h] at hlast
  have hlt := lt_size_of_reaches hreach hlast.closed fun _ => lt_size_of_rule hreplaced hbefore.analysed h
  have hbuilds := call.builds hreplaced hbefore.analysed
  rw [h] at hbuilds
  obtain ⟨added, hrules, -, hfinished⟩ := hbuilds.rules
  obtain ⟨⟨name, body⟩, hentry⟩ : ∃ entry, t.table.rules[id]? = some entry :=
    ⟨_, List.getElem?_eq_getElem hlt⟩
  refine ⟨name, body, hentry, fun hnone => ?_⟩
  subst hnone
  rw [hrules] at hentry
  by_cases hold : id < (after c calls).table.size
  · rw [List.getElem?_append_left hold] at hentry
    exact hbefore.abandoned id name hentry
  · rw [List.getElem?_append_right (Nat.le_of_not_lt hold)] at hentry
    exact (hfinished rfl _ (List.mem_of_getElem? hentry) rfl).elim

/-- A definition that begins with sums, and then goes wrong. -/
def broken : Call := ⟨.list [.text "sum", .combinator "$literal" (.text "")], "odd"⟩

def sum : Call := ⟨.text "sum", ""⟩

theorem handed_out_finished_behind_broken :
    (∀ entry ∈ Compiler.sums.overrides, entry.2.CallsNothing) ∧
      (broken.run .sums .start).1 = .error (.shape "odd" .emptyLiteral) ∧
      ∃ t, sum.run .sums (after .sums [broken]) = (.ok (.rule 1), t) ∧ t.table.Reaches (.rule 1) 2 ∧
        ∃ name body, t.table.rules[2]? = some (name, body) ∧
          (body = none → Abandoned .sums [broken] 2) := by
  have hcalled : sum.run .sums (after .sums [broken]) =
      (.ok (.rule 1), (sum.run .sums (after .sums [broken])).2) := Prod.ext (by cbv) rfl
  have hentry : (sum.run .sums (after .sums [broken])).2.table.rules[1]? =
      some ("sum", some (.sequence [.rule 2, .optional (.sequence [.literal " ", .rule 1])])) := by cbv
  have hterm : (Parser.rule 2).Within
      (.sequence [.rule 2, .optional (.sequence [.literal " ", .rule 1])]) :=
    .part List.mem_cons_self .root
  have hreach : (sum.run .sums (after .sums [broken])).2.table.Reaches (.rule 1) 2 :=
    .through .root hentry (.called hterm)
  exact ⟨Compiler.callsNothing_sums, by cbv, _, hcalled, hreach,
    handed_out_finished Compiler.callsNothing_sums [broken] sum hcalled hreach⟩

/-! ### What is left behind -/

theorem Call.run_of_id? {call : Call} (hne : call.name ≠ "") {s : Session} {id : Nat}
    (hid : s.table.id? call.name = some id) : call.run c s = (.ok (.rule id), s) := by
  change (Compiling.rule c (2 * c.grammar.length + 2 + 1) call.definition call.name).result s = _
  rw [Compiling.rule, if_neg hne, result_bind, result_named, hid]
  rfl

theorem Call.entered_of_error (hreplaced : ∀ entry ∈ c.overrides, entry.2.CallsNothing) {call : Call}
    (hne : call.name ≠ "") {s t : Session} (hs : c.Analysed s.leads s.literals) {error : CompileError}
    (h : call.run c s = (.error error, t)) :
    t.table.id? call.name = some s.table.size ∧ t.table.rules[s.table.size]? = some (call.name, none) := by
  cases hid : s.table.id? call.name with
  | some id =>
    rw [call.run_of_id? hne hid] at h
    cases h
  | none =>
    change (Compiling.rule c (2 * c.grammar.length + 2 + 1) call.definition call.name).result s = _ at h
    rw [Compiling.rule, if_neg hne, result_bind, result_named, hid] at h
    dsimp only at h
    have hentered : (s.entering call.name).table.id? call.name = some s.table.size := by
      rw [RuleTable.id?] at hid ⊢
      change List.findIdx? _ (s.table.rules ++ [(call.name, none)]) = _
      rw [List.findIdx?_append, hid]
      simp [RuleTable.size]
    have hbody := tidy_body (tidy_rule hreplaced (2 * c.grammar.length + 2)) call.definition
      (s.entering call.name) hs
    rcases hresult : (body c (Compiling.rule c (2 * c.grammar.length + 2)) call.definition).result
      (s.entering call.name) with ⟨e | q, inner⟩
    · rw [hresult] at h hbody
      cases h
      obtain ⟨hkept, hentry⟩ := hbody.kept hentered
      refine ⟨hkept, hentry.trans ?_⟩
      exact List.getElem?_concat_length
    · rw [hresult] at h
      cases h

/-- Once a call for a name has failed, every later call for the name succeeds, and hands out the rule that has no
body. -/
theorem handed_out_after_error (hreplaced : ∀ entry ∈ c.overrides, entry.2.CallsNothing)
    {front : List Call} {failed : Call} (hne : failed.name ≠ "") {error : CompileError}
    (hfailed : (failed.run c (after c front)).1 = .error error) (back : List Call) (definition : Rule) :
    ∃ id, (Call.mk definition failed.name).run c (after c (front ++ failed :: back)) =
        (.ok (.rule id), after c (front ++ failed :: back)) ∧
      (after c (front ++ failed :: back)).table.rules[id]? = some (failed.name, none) := by
  have hleft : ∃ id, (after c (front ++ failed :: back)).table.id? failed.name = some id ∧
      (after c (front ++ failed :: back)).table.rules[id]? = some (failed.name, none) := by
    induction back using List.reverseRecOn with
    | nil =>
      rw [after_snoc]
      rcases hresult : failed.run c (after c front) with ⟨outcome, t⟩
      rw [hresult] at hfailed
      subst hfailed
      exact ⟨_, failed.entered_of_error hreplaced hne (accounted_after hreplaced front).analysed hresult⟩
    | append_singleton back call ih =>
      obtain ⟨id, hid, hentry⟩ := ih
      rw [← List.cons_append, ← List.append_assoc, after_snoc]
      obtain ⟨hkept, hsame⟩ :=
        (call.builds hreplaced (accounted_after hreplaced (front ++ failed :: back)).analysed).kept hid
      exact ⟨id, hkept, hsame.trans hentry⟩
  obtain ⟨id, hid, hentry⟩ := hleft
  exact ⟨id, (Call.mk definition failed.name).run_of_id? hne hid, hentry⟩

/-- A definition that failed is handed out when it is asked for again, and has no body. -/
theorem broken_handed_out :
    (broken.run .sums .start).1 = .error (.shape "odd" .emptyLiteral) ∧
      (broken.run .sums (after .sums [broken])).1 = .ok (.rule 0) ∧
      (broken.run .sums (after .sums [broken])).2.table.Reaches (.rule 0) 0 ∧
      (broken.run .sums (after .sums [broken])).2.table.rules[0]? = some ("odd", none) :=
  ⟨by cbv, by cbv, .called .root, by cbv⟩

end Session

end PegGrammar
