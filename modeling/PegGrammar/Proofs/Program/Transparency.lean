import Mathlib
import PegGrammar.Program.Run
import PegGrammar.Proofs.Compile.Transparency
import PegGrammar.Proofs.Parser.Parts
import PegGrammar.Script.Stock

/-!
# Notation makes no difference

A grammar and the same grammar in plain notation compile to programs that differ in the fingerprint only.
The fingerprint tells grammars apart, and no run ever looks at it, so the two give the same result on every
text.
-/

namespace PegGrammar

namespace Program

/-- The program under another fingerprint. -/
def stamped (p : Program) (stamp : Fingerprint) : Program := { p with fingerprint := stamp }

variable {p : Program} {call : Nat → Step} (stamp : Fingerprint)

theorem runItems_stamped {items : List Parser}
    (h : ∀ q ∈ items, node (p.stamped stamp) call q = node p call q)
    (origin : Checkpoint) (found : List Chain) :
    runItems (p.stamped stamp) call origin found items =
      runItems p call origin found items := by
  induction items generalizing found with
  | nil => rfl
  | cons item items ih =>
    have hrest := ih fun q hq => h q (List.mem_cons_of_mem _ hq)
    funext s
    rw [runItems, runItems, h item List.mem_cons_self]
    simp only [hrest]

theorem runBranches_stamped {branches : List (Option BitSet × Parser)}
    (h : ∀ q ∈ branches.map Prod.snd, node (p.stamped stamp) call q = node p call q)
    (origin : Checkpoint) :
    runBranches (p.stamped stamp) call origin branches =
      runBranches p call origin branches := by
  induction branches with
  | nil => rfl
  | cons branch branches ih =>
    obtain ⟨first, branch⟩ := branch
    have hbranch := h branch List.mem_cons_self
    have hrest := ih fun q hq => h q (List.mem_cons_of_mem _ hq)
    have hworth : (p.stamped stamp).worthTrying first = p.worthTrying first := rfl
    funext s
    rw [runBranches, runBranches, hworth, hbranch, hrest]

theorem node_stamped (q : Parser) :
    node (p.stamped stamp) call q = node p call q := by
  induction q using Parser.induction_on_parts with
  | step q ih =>
    have hpart : ∀ part, q.parts = [part] →
        node (p.stamped stamp) call part = node p call part :=
      fun part heq => ih part (heq ▸ List.mem_singleton_self part)
    cases q with
    | sequence items =>
      funext s
      exact congrFun (runItems_stamped stamp ih s.cursor.checkpoint []) s
    | choice branches =>
      funext s
      exact congrFun (runBranches_stamped stamp ih s.cursor.checkpoint) s
    | repeated body => rw [node, node, hpart body rfl]
    | ahead body => rw [node, node, hpart body rfl]
    | notAhead body => rw [node, node, hpart body rfl]
    | optional body => rw [node, node, hpart body rfl]
    | literal | regex | eof | indent | script | rule => rfl

theorem callRule_stamped (room id : Nat) :
    (p.stamped stamp).callRule room id = p.callRule room id := by
  induction room generalizing id with
  | zero => rfl
  | succ room ih =>
    have hcall : (p.stamped stamp).callRule room = p.callRule room := funext ih
    funext s
    rw [callRule, callRule, hcall]
    simp only [node_stamped]
    rfl

theorem runRule_stamped (id : Nat) (cursor : Cursor) :
    (p.stamped stamp).runRule id cursor = p.runRule id cursor := by
  have hlimit : (p.stamped stamp).depthLimit = p.depthLimit := rfl
  rw [runRule, runRule, hlimit, callRule_stamped]

end Program

/-- A grammar that compiles also compiles in plain notation, to the same program but for the fingerprint:
with the same start, the same rules by number, and the same literals in front of every alternative. So
every run of the one is a run of the other, as scripts are functions of the cursor. -/
theorem Compiler.plain_notation_transparent {c : Compiler} {start : String} {p : Program}
    (h : (c.compile start).1 = .ok p) :
    (c.plain.compile start).1 = .ok (p.stamped c.plain.fingerprint) ∧
      ∀ id cursor, (p.stamped c.plain.fingerprint).runRule id cursor = p.runRule id cursor :=
  ⟨compile_plain_eq_ok h, Program.runRule_stamped c.plain.fingerprint⟩

/-- Digits in brackets, annotated and with every kind of sugar. -/
def Compiler.groups : Compiler where
  grammar := [
    ("value", .combinator "$or" (.list [
      .combinator "$ast-node" (.map [("type", .text "group"), ("value", .combinator "$sequence" (.list [
        .text "(",
        .combinator "$ast-prop" (.map [("name", .text "inner"), ("value", .text "value")]),
        .text ")"]))]),
      .combinator "$lua" (.text "digits")]))]
  fingerprint := ⟨[]⟩
  scripts := (Script.stockEngine []).toEngine
  config := { Config.default with bareLiterals := true }
  overrides := []

/-- The program of `Compiler.groups`. -/
def Program.groups : Program where
  rules := [⟨"value", .choice [
    (some ⟨0, [2]⟩, .sequence [.literal "(", .rule 0, .literal ")"]), (none, .script "digits" 0)]⟩]
  start := 0
  nesting := 3
  literals := ⟨0, [(1, "(")], 1⟩
  scripts := Compiler.groups.scripts
  config := Compiler.groups.config
  fingerprint := ⟨[]⟩

theorem Compiler.plain_notation_transparent_groups :
    groups.plain.grammar = [("value", .combinator "$or" (.list [
        .list [.text "(", .text "value", .text ")"], .combinator "$script" (.text "digits")]))] ∧
      (groups.compile "value").1 = .ok Program.groups ∧
      (groups.plain.compile "value").1 = .ok (Program.groups.stamped groups.plain.fingerprint) ∧
      ∀ id cursor, (Program.groups.stamped groups.plain.fingerprint).runRule id cursor =
        Program.groups.runRule id cursor := by
  have hgrammar : groups.plain.grammar = [("value", .combinator "$or" (.list [
      .list [.text "(", .text "value", .text ")"], .combinator "$script" (.text "digits")]))] := by
    decide
  have hcompiled : (groups.compile "value").1 = .ok Program.groups := by cbv
  obtain ⟨hplain, hruns⟩ := plain_notation_transparent hcompiled
  exact ⟨hgrammar, hcompiled, hplain, hruns⟩

end PegGrammar
