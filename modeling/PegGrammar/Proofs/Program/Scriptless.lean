import PegGrammar.Proofs.Compile.Faithful
import PegGrammar.Proofs.Program.Leading
import PegGrammar.Proofs.Program.Translation
import PegGrammar.Proofs.Script.Alike

/-!
# Grammars without scripts

Where a grammar has no scripts, no rule of its programs runs one, and it makes no difference which engine a
program has. So whatever has to be known of an engine can be had by running the program with the one that has no
scripts at all.
-/

namespace PegGrammar

/-- The grammar has no scripts, nor has what replaces names. -/
structure Compiler.Scriptless (c : Compiler) : Prop where
  definitions : ∀ r, c.Contains r → ∀ source, r.shape ≠ .script source
  overrides : ∀ entry ∈ c.overrides, entry.2.Scriptless

theorem Parser.Scriptless.of_parts {q : Parser} (hroot : ∀ source handle, q ≠ .script source handle)
    (hparts : ∀ part ∈ q.parts, part.Scriptless) : q.Scriptless := by
  intro source handle hwithin
  cases hwithin with
  | root => exact hroot source handle rfl
  | part hpart hwithin => exact hparts _ hpart source handle hwithin

theorem Compiler.Renders.scriptless {c : Compiler} {names : List String}
    {lead : Rule → Option BitSet → Prop} {r : Rule} {q : Parser} (h : c.Renders names lead r q)
    (hscripts : c.Scriptless) (hcontains : c.Contains r) : q.Scriptless := by
  have leaf : ∀ {q : Parser}, q.parts = [] → (∀ source handle, q ≠ .script source handle) →
      q.Scriptless :=
    fun hparts hroot => .of_parts hroot fun _ hpart => (List.not_mem_nil (hparts ▸ hpart)).elim
  induction h with
  | replaced hlookup => exact hscripts.overrides _ (mem_of_lookup hlookup)
  | inlined hdefinition _ ih => exact ih (.definition (lookup_of_definition? hdefinition).2)
  | undefined _ _ hleaf =>
    rcases leaf_of_undefined? hleaf with rfl | rfl | rfl
    all_goals exact leaf rfl (fun _ _ heq => by cases heq)
  | @sequence r items qs hshape hlength _ ih =>
    refine .of_parts (fun _ _ heq => by cases heq) fun part hpart => ?_
    obtain ⟨item, hpair⟩ := exists_mem_zip hlength hpart
    have hitem : item ∈ r.shape.parts := hshape ▸ (List.of_mem_zip hpair).1
    exact ih (item, part) hpair (hcontains.part hitem)
  | @choice r rules branches hshape hlength _ _ ih =>
    refine .of_parts (fun _ _ heq => by cases heq) fun part hpart => ?_
    obtain ⟨branch, hbranch, rfl⟩ := List.mem_map.1 hpart
    obtain ⟨rule, hpair⟩ := exists_mem_zip hlength hbranch
    have hrule : rule ∈ r.shape.parts := hshape ▸ (List.of_mem_zip hpair).1
    exact ih (rule, branch) hpair (hcontains.part hrule)
  | repeated hshape _ ih | ahead hshape _ ih | notAhead hshape _ ih | optional hshape _ ih =>
    refine .of_parts (fun _ _ heq => by cases heq) fun part hpart => ?_
    rw [List.mem_singleton.1 hpart]
    exact ih (hcontains.part (hshape ▸ List.mem_cons_self))
  | annotated hshape _ ih => exact ih (hcontains.part (hshape ▸ List.mem_cons_self))
  | script hshape _ => exact (hscripts.definitions _ hcontains _ hshape).elim
  | called | literal | regex | eof | indent => exact leaf rfl (fun _ _ heq => by cases heq)

theorem ScriptEngine.onlyMoves_none : ScriptEngine.none.OnlyMoves := fun _ _ => .stay

theorem ScriptEngine.seesAlike_none : ScriptEngine.none.SeesAlike := fun _ _ _ h => ⟨rfl, h⟩

namespace Program

/-- The program with another engine. -/
def withScripts (p : Program) (engine : ScriptEngine) : Program := { p with scripts := engine }

theorem scriptless_of_defines {c : Compiler} {p : Program} (hscripts : c.Scriptless)
    {names : List String} {lead : Rule → Option BitSet → Prop}
    (hdefines : ∀ rule ∈ p.rules, c.Defines names lead rule) : p.Scriptless := by
  intro rule hrule
  obtain ⟨definition, hlookup, hrenders⟩ := hdefines rule hrule
  exact hrenders.scriptless hscripts (.definition hlookup)

/-- Without scripts a run does not depend on the engine. -/
theorem runRule_withScripts {p : Program} (hscripts : p.Scriptless) (engine : ScriptEngine) (id : Nat)
    (cursor : Cursor) : (p.withScripts engine).runRule id cursor = p.runRule id cursor := by
  have hsame : p.TranslatesTo (fun token => [token]) (p.withScripts engine) := by
    constructor
    case fixed => exact fun _ _ _ _ _ => rfl
    case scriptless => exact hscripts
    case keeps => exact fun _ _ _ _ _ _ => rfl
    case wrap =>
      intro rule _ start tokens c
      rw [List.flatMap_singleton', List.flatMap_singleton']
      rfl
    all_goals rfl
  have houtcome : ∀ outcome : Option Chain, outcome.map (List.flatMap fun token => [token]) = outcome := by
    intro outcome
    cases outcome with
    | none => rfl
    | some tokens => exact congrArg some (List.flatMap_singleton' tokens)
  rw [runRule_translated hsame, houtcome]

end Program

end PegGrammar
