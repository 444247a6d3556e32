import PegGrammar.Pattern.Reader
import PegGrammar.Proofs.Pattern.Readings

/-!
# What the older notation asserts

The older notation has neither the sides of a word nor carriage returns that end lines. So what is read in it
asserts nothing but starts and ends of the text and of lines, and whether a word ends or starts at a place: a
flag for carriage returns is in force nowhere, and no escape stands for anything else.
-/

namespace PegGrammar.Pattern

variable {flags : Flags} {cs rest : List Char}

/-- A part that asserts only what is standard. -/
def Part.Standard (p : Part) : Prop := ∀ l ∈ p.looks, l.isStandard = true

/-- A group of which only standard parts were read, and in which only line feeds end lines. -/
structure Group.Standard (g : Group) : Prop where
  branches : ∀ p ∈ g.branches, p.Standard
  items : ∀ p ∈ g.items, p.Standard
  flags : g.flags.crlf = false

/-- A reader all of whose groups are standard. -/
structure Reading.Standard (r : Reading) : Prop where
  group : r.group.Standard
  outer : ∀ g ∈ r.outer, g.Standard

/-! ### Pieces -/

theorem Part.standard_of_looks {p : Part} (h : p.looks = []) : p.Standard := by
  intro l hl
  rw [h] at hl
  cases hl

theorem Part.standard_of_look {p : Part} {l : Look} (h : p.looks = [l]) (hl : l.isStandard = true) :
    p.Standard := by
  intro m hm
  rw [h, List.mem_singleton] at hm
  exact hm ▸ hl

theorem Group.standard_whole {g : Group} (h : g.Standard) : g.whole.Standard := by
  intro l hl
  rw [looks_whole, List.mem_append] at hl
  rcases hl with hl | hl
  all_goals
    obtain ⟨p, hp, hl⟩ := List.mem_flatMap.1 hl
  · exact h.branches p (List.mem_reverse.1 hp) l hl
  · exact h.items p (List.mem_reverse.1 hp) l hl

theorem Group.Standard.add {g : Group} (h : g.Standard) {p : Part} (hp : p.Standard) : (g.add p).Standard :=
  ⟨h.branches, List.forall_mem_cons.2 ⟨hp, h.items⟩, h.flags⟩

theorem Group.Standard.nextBranch {g : Group} (h : g.Standard) : g.nextBranch.Standard := by
  have hbranch : g.branch.Standard := by
    intro l hl
    rw [looks_branch] at hl
    obtain ⟨p, hp, hl⟩ := List.mem_flatMap.1 hl
    exact h.items p (List.mem_reverse.1 hp) l hl
  exact ⟨List.forall_mem_cons.2 ⟨hbranch, h.branches⟩, List.forall_mem_nil _, h.flags⟩

theorem Group.standard_start (h : flags.crlf = false) (number : Option Nat) :
    (Group.start flags number).Standard :=
  ⟨List.forall_mem_nil _, List.forall_mem_nil _, h⟩

theorem Group.Standard.repeated {g next : Group} (h : g.Standard) {min : Nat} {max : Option Nat}
    (hnext : repeatLast? g min max cs = some (next, rest)) : next.Standard := by
  rw [repeatLast?.eq_def] at hnext
  split at hnext
  · cases hnext
  rename_i last items hitems
  split at hnext
  · cases hnext
    have hparts := h.items
    rw [hitems, List.forall_mem_cons] at hparts
    exact ⟨h.branches, List.forall_mem_cons.2 hparts, h.flags⟩
  · cases hnext

theorem crlf_of_readFlags {steps : Nat} {seen : List Char} {on named opens : Bool} {f : Flags}
    (h : readFlags .classic steps f seen on cs = some (flags, named, opens, rest)) :
    flags.crlf = f.crlf := by
  have hset : ∀ {f g : Flags} {c on}, f.set .classic c on = some g → g.crlf = f.crlf := by
    intro f g c on hset
    rw [Flags.set.eq_def] at hset
    split at hset
    all_goals
      cases hset
    all_goals rfl
  induction steps generalizing f seen on cs with
  | zero => cases h
  | succ steps ih =>
    cases cs with
    | nil => cases h
    | cons c cs =>
      rw [readFlags] at h
      split at h
      · split at h
        · cases h
        · cases h
          rfl
      split at h
      · cases h
      split at h
      · exact ih h
      split at h
      · rename_i hflag
        exact (ih h).trans (hset hflag)
      · cases h

/-- The flags in force in what is opened. -/
def Opening.inForce : Opening → Flags
  | .flags set | .plain set | .group set _ => set

theorem crlf_of_opening? {opening : Opening} (h : opening? .classic flags cs = some (opening, rest)) :
    opening.inForce.crlf = flags.crlf := by
  rw [opening?.eq_def] at h
  split at h
  · cases h
  · cases h
  · cases h
  · cases h
  · obtain ⟨_, -, heq⟩ := Option.map_eq_some_iff.1 h
    cases heq
    rfl
  · cases h
  · obtain ⟨⟨set, named, opens, after⟩, hread, h⟩ := Option.bind_eq_some_iff.1 h
    have hcrlf := crlf_of_readFlags hread
    dsimp only at h
    split at h
    · cases h
      exact hcrlf
    split at h
    · cases h
      exact hcrlf
    · cases h
  · cases h
    rfl

theorem hexEscape?_ne_look {digits : Nat} {l : Look} (h : hexEscape? flags digits cs = some (.look l, rest)) :
    False := by
  rw [hexEscape?] at h
  split at h
  · dsimp only at h
    split at h
    · cases h
    · obtain ⟨_, -, heq⟩ := Option.bind_eq_some_iff.1 h
      cases heq
  · dsimp only at h
    split at h
    · obtain ⟨_, -, heq⟩ := Option.bind_eq_some_iff.1 h
      cases heq
    · cases h

theorem propertyClass?_ne_look {edition : Edition} {negated : Bool} {l : Look}
    (h : propertyClass? edition flags negated cs = some (.look l, rest)) : False := by
  rw [propertyClass?] at h
  split at h
  · dsimp only at h
    split at h
    · cases h
    · obtain ⟨members, heq⟩ := eq_set_of_property h
      cases heq
  · split at h
    · cases h
    · obtain ⟨members, heq⟩ := eq_set_of_property h
      cases heq
  · cases h

theorem isStandard_of_escape? {l : Look} (h : escape? .classic flags cs = some (.look l, rest)) :
    l.isStandard = true := by
  rw [escape?.eq_def] at h
  split at h
  · cases h
  dsimp only at h
  split at h
  · cases h
  split at h
  · exact (hexEscape?_ne_look h).elim
  split at h
  · exact (hexEscape?_ne_look h).elim
  split at h
  · exact (hexEscape?_ne_look h).elim
  split at h
  · exact (propertyClass?_ne_look h).elim
  split at h
  · obtain ⟨_, hclass, heq⟩ := Option.map_eq_some_iff.1 h
    obtain ⟨members, rfl⟩ := eq_set_of_shortClass? hclass
    cases heq
  split at h
  · cases h
  split at h
  · cases h
  split at h
  · cases h
    rfl
  · cases h
    rfl
  · cases h
    rfl
  · cases h
    rfl
  · split at h
    · cases h
    · cases h
      rfl
  · cases h
  · cases h
  · cases h

theorem standard_of_single? {node : Node} (hflags : flags.crlf = false)
    (h : single? .classic flags cs = some (node, rest)) : (Part.flat node).Standard := by
  rw [single?.eq_def] at h
  split at h
  · cases h
  · obtain ⟨_, hnode, heq⟩ := Option.map_eq_some_iff.1 h
    cases heq
    exact Part.standard_of_looks (looks_of_dotNode? hnode)
  · cases h
    refine Part.standard_of_look rfl ?_
    rw [caretLook, hflags]
    split <;> rfl
  · cases h
    refine Part.standard_of_look rfl ?_
    rw [dollarLook, hflags]
    split <;> rfl
  · obtain ⟨⟨item, after⟩, hescape, hitem⟩ := Option.bind_eq_some_iff.1 h
    cases item with
    | char c byte =>
      obtain ⟨_, hnode, heq⟩ := Option.bind_eq_some_iff.1 hitem
      cases heq
      exact Part.standard_of_looks (looks_of_charNode? hnode)
    | set members =>
      cases hitem
      exact Part.standard_of_looks rfl
    | look l =>
      cases hitem
      exact Part.standard_of_look rfl (isStandard_of_escape? hescape)
  · obtain ⟨_, hnode, heq⟩ := Option.map_eq_some_iff.1 h
    cases heq
    exact Part.standard_of_looks (looks_of_charNode? hnode)

/-! ### The whole pattern -/

theorem Reading.Standard.repeated {r next : Reading} (hr : r.Standard) {min : Nat} {max : Option Nat}
    (h : (repeatLast? r.group min max cs).map (fun (group, rest) => ({ r with group }, rest)) =
      some (next, rest)) : next.Standard := by
  obtain ⟨⟨g, after⟩, hg, heq⟩ := Option.map_eq_some_iff.1 h
  cases heq
  exact ⟨hr.group.repeated hg, hr.outer⟩

theorem Reading.Standard.step {r next : Reading} (hr : r.Standard) {c : Char}
    (h : step? .classic r c cs = some (next, rest)) : next.Standard := by
  have hadd : ∀ {p : Part}, p.Standard → ({ r with group := r.group.add p } : Reading).Standard :=
    fun hp => ⟨hr.group.add hp, hr.outer⟩
  have hopened : ∀ {opening after}, opening? .classic r.group.flags cs = some (opening, after) →
      opening.inForce.crlf = false := fun hopening => (crlf_of_opening? hopening).trans hr.group.flags
  rw [step?.eq_def] at h
  dsimp only at h
  split at h
  · split at h
    · cases h
    · rename_i hopening
      cases h
      have hempty := hr.group.add (Part.standard_of_looks (p := ⟨.empty, 0, false⟩) rfl)
      exact ⟨⟨hempty.branches, hempty.items, hopened hopening⟩, hr.outer⟩
    · rename_i hopening
      cases h
      exact ⟨Group.standard_start (hopened hopening) none, List.forall_mem_cons.2 ⟨hr.group, hr.outer⟩⟩
    · rename_i hopening
      split at h
      · cases h
      · cases h
        exact ⟨Group.standard_start (hopened hopening) _, List.forall_mem_cons.2 ⟨hr.group, hr.outer⟩⟩
  · split at h
    · cases h
    · rename_i houter
      cases h
      have hstack := hr.outer
      rw [houter, List.forall_mem_cons] at hstack
      exact ⟨hstack.1.add (Group.standard_whole hr.group), hstack.2⟩
  · cases h
    exact ⟨hr.group.nextBranch, hr.outer⟩
  · obtain ⟨⟨found, after⟩, -, heq⟩ := Option.bind_eq_some_iff.1 h
    cases heq
    exact hadd (Part.standard_of_looks rfl)
  · exact hr.repeated h
  · exact hr.repeated h
  · exact hr.repeated h
  · obtain ⟨⟨min, max, after⟩, -, hmap⟩ := Option.bind_eq_some_iff.1 h
    exact hr.repeated hmap
  · obtain ⟨⟨node, after⟩, hsingle, heq⟩ := Option.bind_eq_some_iff.1 h
    cases heq
    exact hadd (standard_of_single? hr.group.flags hsingle)

theorem standard_of_readFrom {steps : Nat} {r : Reading} (hr : r.Standard) {whole : Part}
    (h : readFrom .classic steps r cs = some whole) : whole.Standard := by
  induction steps generalizing r cs with
  | zero => cases h
  | succ steps ih =>
    rw [readFrom] at h
    split at h
    · split at h
      · cases h
        exact Group.standard_whole hr.group
      · cases h
    · split at h
      · rename_i hstep
        exact ih (hr.step hstep) h
      · cases h

/-- What is read in the older notation asserts only what is standard. -/
theorem standard_of_parse? {text : String} {tree : Node} (h : parse? .classic text = some tree) :
    ∀ l ∈ tree.looks, l.isStandard = true := by
  obtain ⟨whole, hread, -, rfl⟩ := parse?_eq_some h
  exact standard_of_readFrom ⟨Group.standard_start rfl none, List.forall_mem_nil _⟩ hread

end PegGrammar.Pattern
