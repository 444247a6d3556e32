import PegGrammar.Pattern.Machine

/-!
# What is asserted

A machine asserts what the tree asserts that it was built from, and nothing else. All of its steps lead to
steps that it has, and they stay where they are when more steps are put in front.
-/

namespace PegGrammar.Pattern

/-- The assertions that are about the text, about lines, and about words on both sides of a place. -/
def Look.isStandard : Look → Bool
  | .textStart | .textEnd | .lineStart | .lineEnd | .wordEdge _ | .noWordEdge _ => true
  | .lineStartCrlf | .lineEndCrlf | .wordStart _ | .wordEnd _ | .wordStartHalf _ | .wordEndHalf _ => false

namespace Node

mutual

/-- The assertions of a tree, from left to right. -/
def looks : Node → List Look
  | .empty | .char _ | .set _ => []
  | .look l => [l]
  | .repeated _ _ _ body => body.looks
  | .group _ body => body.looks
  | .concat items => looksOfAll items
  | .choice branches => looksOfAll branches

/-- The assertions of all trees of a list. -/
def looksOfAll : List Node → List Look
  | [] => []
  | node :: nodes => node.looks ++ looksOfAll nodes

end

mutual

theorem looksBehind_eq_any (node : Node) : node.looksBehind = node.looks.any Look.looksBehind := by
  cases node with
  | empty | char | set => rfl
  | look l => exact (Bool.or_false _).symm
  | repeated min max greedy body => exact looksBehind_eq_any body
  | group number body => exact looksBehind_eq_any body
  | concat items => exact anyLooksBehind_eq_any items
  | choice branches => exact anyLooksBehind_eq_any branches

theorem anyLooksBehind_eq_any (nodes : List Node) :
    anyLooksBehind nodes = (looksOfAll nodes).any Look.looksBehind := by
  cases nodes with
  | nil => rfl
  | cons node nodes =>
    rw [anyLooksBehind, looksOfAll, List.any_append, looksBehind_eq_any node,
      anyLooksBehind_eq_any nodes]

end

end Node

/-- A step asserts only what is allowed, and leads to one of the first `bound` steps. -/
def Step.Sound (P : Look → Prop) (bound : Nat) : Step → Prop
  | .stop => True
  | .char _ next | .set _ next => next < bound
  | .look l next => P l ∧ next < bound
  | .fork first second => first < bound ∧ second < bound

theorem Step.Sound.mono {P : Look → Prop} {bound more : Nat} {step : Step} (h : step.Sound P bound)
    (hle : bound ≤ more) : step.Sound P more := by
  cases step with
  | stop => trivial
  | char c next | set members next => exact Nat.lt_of_lt_of_le h hle
  | look l next => exact ⟨h.1, Nat.lt_of_lt_of_le h.2 hle⟩
  | fork first second => exact ⟨Nat.lt_of_lt_of_le h.1 hle, Nat.lt_of_lt_of_le h.2 hle⟩

namespace Machine

/-- A machine that asserts only what is allowed, and whose steps lead to steps that it has. -/
structure Sound (P : Look → Prop) (m : Machine) : Prop where
  entry : m.entry < m.steps.size
  steps : ∀ step ∈ m.steps, step.Sound P m.steps.size

/-- A part of a machine that may be put in front of sound steps. -/
def Builds (P : Look → Prop) (part : Machine → Machine) : Prop :=
  ∀ m, m.Sound P → (part m).Sound P ∧ m.steps.size ≤ (part m).steps.size

variable {P : Look → Prop} {m : Machine} {part : Machine → Machine}

theorem Sound.leavingFor (h : m.Sound P) {out : Nat} (hout : out < m.steps.size) :
    Sound P ⟨m.steps, out⟩ :=
  ⟨hout, h.steps⟩

theorem Sound.enter (h : m.Sound P) {step : Step} (hstep : step.Sound P m.steps.size) :
    (m.enter step).Sound P ∧ m.steps.size ≤ (m.enter step).steps.size := by
  have hsize : (m.enter step).steps.size = m.steps.size + 1 := Array.size_push step
  refine ⟨⟨hsize ▸ Nat.lt_succ_self _, fun other hother => ?_⟩, hsize ▸ Nat.le_succ _⟩
  rw [hsize]
  rcases Array.mem_push.1 hother with hother | rfl
  · exact (h.steps other hother).mono (Nat.le_succ _)
  · exact hstep.mono (Nat.le_succ _)

theorem Sound.forked (h : m.Sound P) {second : Nat} (hsecond : second < m.steps.size) :
    (m.enter (.fork m.entry second)).Sound P ∧
      m.steps.size ≤ (m.enter (.fork m.entry second)).steps.size :=
  h.enter ⟨h.entry, hsecond⟩

theorem sound_forkOf {bound on out : Nat} (hon : on < bound) (hout : out < bound) (greedy : Bool) :
    (forkOf greedy on out).Sound P bound := by
  cases greedy
  · exact ⟨hout, hon⟩
  · exact ⟨hon, hout⟩

theorem Builds.copies (hpart : Builds P part) (n : Nat) : Builds P (Machine.copies part n) := by
  induction n with
  | zero => exact fun m h => ⟨h, Nat.le_refl _⟩
  | succ n ih =>
    intro m h
    obtain ⟨hfirst, hle⟩ := hpart m h
    obtain ⟨hrest, hle'⟩ := ih _ hfirst
    exact ⟨hrest, Nat.le_trans hle hle'⟩

theorem Builds.optionalCopies (hpart : Builds P part) (greedy : Bool) {out : Nat} (n : Nat)
    (h : m.Sound P) (hout : out < m.steps.size) :
    (Machine.optionalCopies part greedy out n m).Sound P ∧
      m.steps.size ≤ (Machine.optionalCopies part greedy out n m).steps.size := by
  induction n generalizing m with
  | zero => exact ⟨h, Nat.le_refl _⟩
  | succ n ih =>
    obtain ⟨hfirst, hle⟩ := hpart m h
    have hout' := Nat.lt_of_lt_of_le hout hle
    obtain ⟨hforked, hle'⟩ := hfirst.enter (sound_forkOf hfirst.entry hout' greedy)
    obtain ⟨hrest, hle''⟩ := ih hforked (Nat.lt_of_lt_of_le hout' hle')
    exact ⟨hrest, Nat.le_trans hle (Nat.le_trans hle' hle'')⟩

theorem Builds.iterations (hpart : Builds P part) (greedy : Bool) :
    Builds P (Machine.iterations part greedy) := by
  intro m h
  obtain ⟨hforked, hle⟩ := h.forked h.entry
  obtain ⟨hbody, hle'⟩ := hpart _ hforked
  have hsize : (Machine.iterations part greedy m).steps.size =
      (part (m.enter (.fork m.entry m.entry))).steps.size := Array.size_setIfInBounds
  refine ⟨⟨hsize ▸ hbody.entry, fun step hstep => ?_⟩, hsize ▸ Nat.le_trans hle hle'⟩
  rw [hsize]
  rcases Array.mem_or_eq_of_mem_setIfInBounds hstep with hstep | rfl
  · exact hbody.steps step hstep
  · exact sound_forkOf hbody.entry (Nat.lt_of_lt_of_le h.entry (Nat.le_trans hle hle')) greedy

theorem Builds.repetition (hpart : Builds P part) (min : Nat) (max : Option Nat) (greedy : Bool) :
    Builds P (Machine.repetition part min max greedy) := by
  intro m h
  cases max with
  | some max =>
    obtain ⟨hoptional, hle⟩ := hpart.optionalCopies greedy (max - min) h h.entry
    obtain ⟨hall, hle'⟩ := hpart.copies min _ hoptional
    rw [Machine.repetition]
    exact ⟨hall, Nat.le_trans hle hle'⟩
  | none =>
    obtain ⟨hiterated, hle⟩ := hpart.iterations greedy m h
    cases min with
    | zero =>
      have hout := Nat.lt_of_lt_of_le h.entry hle
      obtain ⟨hforked, hle'⟩ := hiterated.enter (sound_forkOf hiterated.entry hout greedy)
      exact ⟨hforked, Nat.le_trans hle hle'⟩
    | succ min =>
      obtain ⟨hall, hle'⟩ := hpart.copies min _ hiterated
      exact ⟨hall, Nat.le_trans hle hle'⟩

end Machine

namespace Node

open Machine

variable {P : Look → Prop}

mutual

/-- What is built from a tree asserts what the tree does. -/
theorem builds_build (node : Node) (h : ∀ l ∈ node.looks, P l) : Builds P (build node) := by
  intro m hm
  cases node with
  | empty => exact ⟨hm, Nat.le_refl _⟩
  | char c => exact hm.enter hm.entry
  | set members => exact hm.enter hm.entry
  | look l => exact hm.enter ⟨h l (List.mem_singleton_self l), hm.entry⟩
  | repeated min max greedy body =>
    have hbody := builds_build body h
    rw [build]
    split
    · exact hbody.repetition _ _ greedy m hm
    · exact hbody.repetition min max greedy m hm
  | group number body => exact builds_build body h m hm
  | concat items => exact builds_buildAll items h m hm
  | choice branches => exact builds_buildBranches branches h hm hm.entry

theorem builds_buildAll (nodes : List Node) (h : ∀ l ∈ looksOfAll nodes, P l) :
    Builds P (buildAll nodes) := by
  intro m hm
  match nodes with
  | [] => exact ⟨hm, Nat.le_refl _⟩
  | [node] => exact builds_build node (fun l hl => h l (List.mem_append_left _ hl)) m hm
  | node :: next :: nodes =>
    have hrest : ∀ l ∈ looksOfAll (next :: nodes), P l := fun l hl => h l (List.mem_append_right _ hl)
    obtain ⟨hbehind, hle⟩ := builds_buildAll (next :: nodes) hrest m hm
    obtain ⟨hall, hle'⟩ := builds_build node (fun l hl => h l (List.mem_append_left _ hl)) _ hbehind
    exact ⟨hall, Nat.le_trans hle hle'⟩

theorem builds_buildBranches (nodes : List Node) (h : ∀ l ∈ looksOfAll nodes, P l) {out : Nat}
    {m : Machine} (hm : m.Sound P) (hout : out < m.steps.size) :
    (buildBranches out nodes m).Sound P ∧ m.steps.size ≤ (buildBranches out nodes m).steps.size := by
  match nodes with
  | [] => exact ⟨hm.leavingFor hout, Nat.le_refl _⟩
  | [node] =>
    exact builds_build node (fun l hl => h l (List.mem_append_left _ hl)) _ (hm.leavingFor hout)
  | node :: next :: nodes =>
    have hrest : ∀ l ∈ looksOfAll (next :: nodes), P l := fun l hl => h l (List.mem_append_right _ hl)
    obtain ⟨hsecond, hle⟩ := builds_buildBranches (next :: nodes) hrest hm hout
    obtain ⟨hfirst, hle'⟩ := builds_build node (fun l hl => h l (List.mem_append_left _ hl)) _
      (hsecond.leavingFor (Nat.lt_of_lt_of_le hout hle))
    obtain ⟨hforked, hle''⟩ := hfirst.forked (Nat.lt_of_lt_of_le hsecond.entry hle')
    exact ⟨hforked, Nat.le_trans hle (Nat.le_trans hle' hle'')⟩

end

theorem sound_machine {node : Node} (h : ∀ l ∈ node.looks, P l) : node.machine.Sound P :=
  (builds_build node h ⟨#[.stop], 0⟩ ⟨Nat.zero_lt_one, by simp [Step.Sound]⟩).1

end Node

end PegGrammar.Pattern
