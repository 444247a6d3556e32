import Mathlib.Logic.Relation
import PegGrammar.Proofs.Lead.Derivation

/-!
# The names that a walk comes to

A walk through a definition goes on behind the items of a list that may be empty. What may be empty depends on the
names that are being expanded, as these count as empty, but where no two different names come to each other, only
the innermost of them is ever met again. So it is enough to know inside of which name a walk is. Two walks that
agree on the names that they come to find the same.
-/

namespace PegGrammar.Lead

variable {context : LeadContext} {onlyStart : Bool}

/-- A walk inside of a name takes a definition for one with an empty match. The name itself counts as empty, as it
is being expanded, and any other name does if its own definition is taken for one with an empty match. -/
inductive MayBeEmpty (context : LeadContext) : Option String → Rule → Prop
  | itself {name : String} : MayBeEmpty context (some name) (.text name)
  | expanded {inside : Option String} {name : String} {definition : Rule} : name ∉ context.hidden →
      context.grammar.lookup name = some definition → MayBeEmpty context (some name) definition →
      MayBeEmpty context inside (.text name)
  | undefined {inside : Option String} {name : String} : name ∉ context.hidden →
      context.grammar.lookup name = none → .nothing ∈ (ofUndefined context name).items →
      MayBeEmpty context inside (.text name)
  | leaf {inside : Option String} {r : Rule} : .nothing ∈ (ofShape r.shape).items →
      MayBeEmpty context inside r
  | alternative {inside : Option String} {r part : Rule} : part ∈ alternatives r.shape →
      MayBeEmpty context inside part → MayBeEmpty context inside r
  | sequence {inside : Option String} {r : Rule} {items : List Rule} : r.shape = .sequence items →
      (∀ x ∈ items, MayBeEmpty context inside x) → MayBeEmpty context inside r

/-- A walk inside of a name, through a definition, comes to a name. With `onlyStart`, an item of a list counts only
if all before it may be empty. -/
inductive Visits (context : LeadContext) (onlyStart : Bool) (inside : Option String) : Rule → String → Prop
  | name {name : String} : Visits context onlyStart inside (.text name) name
  | alternative {r part : Rule} {name : String} : part ∈ alternatives r.shape →
      Visits context onlyStart inside part name → Visits context onlyStart inside r name
  | item {r item : Rule} {front back : List Rule} {name : String} :
      r.shape = .sequence (front ++ item :: back) →
      (onlyStart = true → ∀ x ∈ front, MayBeEmpty context inside x) →
      Visits context onlyStart inside item name → Visits context onlyStart inside r name

/-- Where a name is expanded, the walk comes to another. -/
def Expands (context : LeadContext) (onlyStart : Bool) (name other : String) : Prop :=
  name ∉ context.hidden ∧ ∃ definition, context.grammar.lookup name = some definition ∧
    Visits context onlyStart (some name) definition other

/-- Of a name and the names that it comes to, no two come to each other. Each may come to itself. -/
def Untangled (context : LeadContext) (onlyStart : Bool) (name : String) : Prop :=
  ∀ a b, Relation.ReflTransGen (Expands context onlyStart) name a →
    Relation.TransGen (Expands context onlyStart) a b →
    Relation.TransGen (Expands context onlyStart) b a → a = b

theorem Untangled.comes {name other : String} (h : Untangled context onlyStart name)
    (hcomes : Relation.TransGen (Expands context onlyStart) name other) : Untangled context onlyStart other :=
  fun a b hother => h a b (hcomes.to_reflTransGen.trans hother)

theorem not_mayBeEmpty_literal {inside : Option String} {text : String} :
    ¬ MayBeEmpty context inside (.combinator "$literal" (.text text)) := by
  intro h
  cases h with
  | leaf hleaf =>
    change .nothing ∈ (if text = "" then FirstSet.anything else FirstSet.literal text).items at hleaf
    split at hleaf <;> cases SortedSet.mem_single.1 hleaf
  | alternative hpart => cases hpart
  | sequence hshape => cases hshape

theorem MayBeEmpty.of_text {inside : Option String} {name : String}
    (h : MayBeEmpty context inside (.text name)) :
    inside = some name ∨ name ∉ context.hidden ∧
      ((∃ definition, context.grammar.lookup name = some definition ∧
          MayBeEmpty context (some name) definition) ∨
        context.grammar.lookup name = none ∧ .nothing ∈ (ofUndefined context name).items) := by
  cases h with
  | itself => exact .inl rfl
  | expanded hname hlookup hempty => exact .inr ⟨hname, .inl ⟨_, hlookup, hempty⟩⟩
  | undefined hname hlookup hmem => exact .inr ⟨hname, .inr ⟨hlookup, hmem⟩⟩
  | leaf hleaf => cases hleaf
  | alternative hpart => cases hpart
  | sequence hshape => cases hshape

theorem MayBeEmpty.definition {inside : Option String} {name : String} {definition : Rule}
    (h : MayBeEmpty context inside (.text name)) (hlookup : context.grammar.lookup name = some definition)
    (hinside : inside ≠ some name) : MayBeEmpty context (some name) definition := by
  obtain heq | ⟨-, ⟨found, hfound, hempty⟩ | ⟨hnone, -⟩⟩ := h.of_text
  · exact (hinside heq).elim
  · cases hlookup.symm.trans hfound
    exact hempty
  · cases hlookup.symm.trans hnone

theorem not_mayBeEmpty_list {inside : Option String} {x : Rule} {rest : List Rule}
    (hx : ¬ MayBeEmpty context inside x) : ¬ MayBeEmpty context inside (.list (x :: rest)) := by
  intro h
  cases h with
  | leaf hleaf => cases hleaf
  | alternative hpart => cases hpart
  | sequence hshape hempty => exact hx (hempty x (Rule.Shape.sequence.inj hshape ▸ List.mem_cons_self))

theorem not_mayBeEmpty_choice {inside : Option String} {x : Rule} {rest : List Rule}
    (hbranches : ∀ branch ∈ x :: rest, ¬ MayBeEmpty context inside branch) :
    ¬ MayBeEmpty context inside (.combinator "$or" (.list (x :: rest))) := by
  intro h
  cases h with
  | leaf hleaf => cases hleaf
  | alternative hpart hempty => exact hbranches _ hpart hempty
  | sequence hshape => cases hshape

theorem visits_text {onlyStart : Bool} {inside : Option String} {text name : String}
    (h : Visits context onlyStart inside (.text text) name) : name = text := by
  cases h with
  | name => rfl
  | alternative hpart => cases hpart
  | item hshape => cases hshape

theorem not_visits_literal {onlyStart : Bool} {inside : Option String} {text name : String} :
    ¬ Visits context onlyStart inside (.combinator "$literal" (.text text)) name := by
  intro h
  cases h with
  | alternative hpart => cases hpart
  | item hshape => cases hshape

theorem visits_choice {onlyStart : Bool} {inside : Option String} {x : Rule} {rest : List Rule} {name : String}
    (h : Visits context onlyStart inside (.combinator "$or" (.list (x :: rest))) name) :
    ∃ branch ∈ x :: rest, Visits context onlyStart inside branch name := by
  cases h with
  | alternative hpart hvisits => exact ⟨_, hpart, hvisits⟩
  | item hshape => cases hshape

theorem visits_list {inside : Option String} {x : Rule} {rest : List Rule} {name : String}
    (hx : ¬ MayBeEmpty context inside x) (h : Visits context true inside (.list (x :: rest)) name) :
    Visits context true inside x name := by
  cases h with
  | alternative hpart => cases hpart
  | @item _ item front back _ hshape hfront hvisits =>
    have heq : x :: rest = front ++ item :: back := Rule.Shape.sequence.inj hshape
    cases front with
    | nil =>
      obtain ⟨rfl, -⟩ := List.cons.inj heq
      exact hvisits
    | cons y front =>
      obtain ⟨rfl, -⟩ := List.cons.inj heq
      exact (hx (hfront rfl x List.mem_cons_self)).elim

/-- It is enough that each name comes to itself and to names of a lower rank only. -/
theorem untangled_of_rank {P : String → Prop} (rank : String → Nat)
    (hstep : ∀ a b, P a → Expands context onlyStart a b → P b ∧ (a = b ∨ rank b < rank a)) {name : String}
    (hname : P name) : Untangled context onlyStart name := by
  have hrank : ∀ {a b}, P a → Relation.TransGen (Expands context onlyStart) a b →
      P b ∧ (a = b ∨ rank b < rank a) := by
    intro a b ha hab
    induction hab with
    | single hexpands => exact hstep _ _ ha hexpands
    | tail _ hexpands ih =>
      obtain ⟨hmid, hle⟩ := ih
      obtain ⟨hlast, hless⟩ := hstep _ _ hmid hexpands
      refine ⟨hlast, ?_⟩
      rcases hle with rfl | hlt
      · exact hless
      · rcases hless with rfl | hless
        · exact .inr hlt
        · exact .inr (Nat.lt_trans hless hlt)
  intro a b hreach hab hba
  have ha : P a := by
    rcases Relation.reflTransGen_iff_eq_or_transGen.1 hreach with rfl | htrans
    · exact hname
    · exact (hrank hname htrans).1
  obtain ⟨hb, heq | hlt⟩ := hrank ha hab
  · exact heq
  · rcases (hrank hb hba).2 with heq | hgt
    · exact heq.symm
    · omega

/-! ### Two walks through one definition -/

/-- What two walks through a definition find: the same set, which has nothing in it only where it may, and related
states. -/
structure Agrees (context : LeadContext) (onlyStart : Bool) (inside : Option String)
    (R : LeadState → LeadState → Prop) (r : Rule) (result result' : FirstSet × LeadState) : Prop where
  found : result.1 = result'.1
  state : R result.2 result'.2
  empty : onlyStart = true → .nothing ∈ result.1.items → MayBeEmpty context inside r

/-- From related states, two walks agree. -/
def Agree (context : LeadContext) (onlyStart : Bool) (inside : Option String) (R : LeadState → LeadState → Prop)
    (r : Rule) (w w' : Walk) : Prop :=
  ∀ s s', R s s' → Agrees context onlyStart inside R r (w s) (w' s')

section

variable {inside : Option String} {R : LeadState → LeadState → Prop} {ofName ofName' : String → Walk}

theorem agree_walkList {items : List Rule}
    (hitems : ∀ front x back, items = front ++ x :: back →
      (onlyStart = true → ∀ y ∈ front, MayBeEmpty context inside y) →
      Agree context onlyStart inside R x (walk ofName onlyStart x) (walk ofName' onlyStart x))
    (before : FirstSet) {s s' : LeadState} (hR : R s s') :
    (walkList ofName onlyStart before items s).1 = (walkList ofName' onlyStart before items s').1 ∧
      R (walkList ofName onlyStart before items s).2 (walkList ofName' onlyStart before items s').2 ∧
      (onlyStart = true → .nothing ∈ (walkList ofName onlyStart before items s).1.items →
        ∀ x ∈ items, MayBeEmpty context inside x) := by
  induction items generalizing before s s' with
  | nil =>
    rw [walkList.eq_def, walkList.eq_def]
    exact ⟨rfl, hR, fun _ _ x hx => by cases hx⟩
  | cons x rest ih =>
    have hx := hitems [] x rest rfl (fun _ y hy => by cases hy) s s' hR
    rcases hwalk : walk ofName onlyStart x s with ⟨found, mid⟩
    rcases hwalk' : walk ofName' onlyStart x s' with ⟨found', mid'⟩
    rw [hwalk, hwalk'] at hx
    obtain ⟨hfound, hmid, hempty⟩ := hx
    dsimp only at hfound hmid hempty
    subst hfound
    have hitem : onlyStart = true → .nothing ∈ ((before.erase .nothing).union found).items →
        MayBeEmpty context inside x := by
      intro hstart hmem
      rcases SortedSet.mem_union.1 hmem with hbefore | hfound
      · exact ((SortedSet.mem_erase.1 hbefore).2 rfl).elim
      · exact hempty hstart hfound
    cases rest with
    | nil =>
      rw [walkList.eq_def, walkList.eq_def]
      dsimp only
      rw [hwalk, hwalk']
      refine ⟨rfl, hmid, fun hstart hmem y hy => ?_⟩
      rw [List.mem_singleton.1 hy]
      exact hitem hstart hmem
    | cons y ys =>
      rw [walkList.eq_def, walkList.eq_def ofName']
      dsimp only
      rw [hwalk, hwalk']
      dsimp only
      by_cases hstop : (onlyStart && !((before.erase .nothing).union found).contains .nothing) = true
      · rw [if_pos hstop, if_pos hstop]
        refine ⟨rfl, hmid, fun _ hmem => ?_⟩
        rw [Bool.and_eq_true, Bool.not_eq_true'] at hstop
        rw [SortedSet.contains_iff.2 hmem] at hstop
        cases hstop.2
      · rw [if_neg hstop, if_neg hstop]
        have hpassed : onlyStart = true → MayBeEmpty context inside x := by
          intro hstart
          rw [hstart, Bool.true_and, Bool.not_eq_true', Bool.not_eq_false] at hstop
          exact hitem hstart (SortedSet.contains_iff.1 hstop)
        obtain ⟨hrest, hlast, hrestEmpty⟩ := ih (fun front z back heq hfront =>
          hitems (x :: front) z back (by rw [heq, List.cons_append]) fun hstart w hw => by
            rcases List.mem_cons.1 hw with rfl | hw
            · exact hpassed hstart
            · exact hfront hstart w hw) ((before.erase .nothing).union found) hmid
        refine ⟨hrest, hlast, fun hstart hmem z hz => ?_⟩
        rcases List.mem_cons.1 hz with rfl | hz
        · exact hpassed hstart
        · exact hrestEmpty hstart hmem z hz

theorem agree_walkBranches {branches : List Rule}
    (hbranches : ∀ x ∈ branches,
      Agree context onlyStart inside R x (walk ofName onlyStart x) (walk ofName' onlyStart x))
    (before : FirstSet) {s s' : LeadState} (hR : R s s') :
    (walkBranches ofName onlyStart before branches s).1 =
        (walkBranches ofName' onlyStart before branches s').1 ∧
      R (walkBranches ofName onlyStart before branches s).2
        (walkBranches ofName' onlyStart before branches s').2 ∧
      (onlyStart = true → .nothing ∈ (walkBranches ofName onlyStart before branches s).1.items →
        .nothing ∈ before.items ∨ ∃ x ∈ branches, MayBeEmpty context inside x) := by
  induction branches generalizing before s s' with
  | nil =>
    rw [walkBranches.eq_def, walkBranches.eq_def]
    exact ⟨rfl, hR, fun _ hmem => .inl hmem⟩
  | cons x rest ih =>
    have hx := hbranches x List.mem_cons_self s s' hR
    rw [walkBranches.eq_def, walkBranches.eq_def ofName']
    dsimp only
    rcases hwalk : walk ofName onlyStart x s with ⟨found, mid⟩
    rcases hwalk' : walk ofName' onlyStart x s' with ⟨found', mid'⟩
    rw [hwalk, hwalk'] at hx
    obtain ⟨hfound, hmid, hempty⟩ := hx
    dsimp only at hfound hmid hempty ⊢
    subst hfound
    obtain ⟨hrest, hlast, hrestEmpty⟩ :=
      ih (fun y hy => hbranches y (List.mem_cons_of_mem _ hy)) (before.union found) hmid
    refine ⟨hrest, hlast, fun hstart hmem => ?_⟩
    rcases hrestEmpty hstart hmem with hunion | ⟨y, hy, hymay⟩
    · rcases SortedSet.mem_union.1 hunion with hbefore | hfound
      · exact .inl hbefore
      · exact .inr ⟨x, List.mem_cons_self, hempty hstart hfound⟩
    · exact .inr ⟨y, List.mem_cons_of_mem _ hy, hymay⟩

/-- The walks through a definition agree if those through the names agree that they can come to. -/
theorem agree_walk {r : Rule} (hnames : ∀ name, Visits context onlyStart inside r name →
      Agree context onlyStart inside R (.text name) (ofName name) (ofName' name)) :
    Agree context onlyStart inside R r (walk ofName onlyStart r) (walk ofName' onlyStart r) := by
  induction r using Rule.induction_on_parts with
  | step r ih =>
    have hparts : ∀ part ∈ alternatives r.shape,
        Agree context onlyStart inside R part (walk ofName onlyStart part) (walk ofName' onlyStart part) :=
      fun part hpart => ih part (alternatives_subset _ hpart)
        fun name hname => hnames name (.alternative hpart hname)
    rw [walk_eq, walk_eq]
    intro s s' hR
    have leaf : Agrees context onlyStart inside R r (ofShape r.shape, s) (ofShape r.shape, s') :=
      ⟨rfl, hR, fun _ hmem => .leaf hmem⟩
    have unary : ∀ part ∈ alternatives r.shape,
        Agrees context onlyStart inside R r (walk ofName onlyStart part s) (walk ofName' onlyStart part s') := by
      intro part hpart
      obtain ⟨hfound, hstate, hempty⟩ := hparts part hpart s s' hR
      exact ⟨hfound, hstate, fun hstart hmem => .alternative hpart (hempty hstart hmem)⟩
    cases hshape : r.shape with
    | reference name =>
      obtain rfl := Rule.eq_text_of_shape hshape
      exact hnames name .name s s' hR
    | sequence items =>
      have hitems : ∀ front x back, items = front ++ x :: back →
          (onlyStart = true → ∀ y ∈ front, MayBeEmpty context inside y) →
          Agree context onlyStart inside R x (walk ofName onlyStart x) (walk ofName' onlyStart x) := by
        intro front x back heq hfront
        rw [heq] at hshape
        refine ih x ?_ fun name hname => hnames name (.item hshape hfront hname)
        rw [hshape]
        exact List.mem_append_right _ List.mem_cons_self
      obtain ⟨hfound, hstate, hempty⟩ := agree_walkList hitems .empty hR
      exact ⟨hfound, hstate, fun hstart hmem => .sequence hshape (hempty hstart hmem)⟩
    | choice branches =>
      rw [hshape] at hparts
      obtain ⟨hfound, hstate, hempty⟩ := agree_walkBranches hparts .empty hR
      refine ⟨hfound, hstate, fun hstart hmem => ?_⟩
      rcases hempty hstart hmem with hnone | ⟨x, hx, hxmay⟩
      · cases hnone
      · exact .alternative (by rw [hshape]; exact hx) hxmay
    | repeated part | ahead part | annotated part =>
      rw [hshape] at unary
      exact unary part List.mem_cons_self
    | optional part =>
      rw [hshape] at hparts
      obtain ⟨hfound, hstate, -⟩ := hparts part List.mem_cons_self s s' hR
      refine ⟨congrArg (fun found : FirstSet => found.insert .nothing) hfound, hstate,
        fun _ _ => .leaf ?_⟩
      rw [hshape]
      exact SortedSet.mem_single.2 rfl
    | notAhead | literal | regex | eof | indent | script | wrong =>
      rw [hshape] at leaf
      exact leaf

theorem walkList_keeps {I : LeadState → Prop} {items : List Rule}
    (hitems : ∀ x ∈ items, ∀ state, I state → I (walk ofName onlyStart x state).2) (before : FirstSet)
    {state : LeadState} (hstate : I state) : I (walkList ofName onlyStart before items state).2 := by
  induction items generalizing before state with
  | nil =>
    rw [walkList.eq_def]
    exact hstate
  | cons x rest ih =>
    have hx := hitems x List.mem_cons_self state hstate
    cases rest with
    | nil =>
      rw [walkList.eq_def]
      exact hx
    | cons y ys =>
      rw [walkList.eq_def]
      dsimp only
      split
      · exact hx
      · exact ih (fun z hz => hitems z (List.mem_cons_of_mem _ hz)) _ hx

theorem walkBranches_keeps {I : LeadState → Prop} {branches : List Rule}
    (hbranches : ∀ x ∈ branches, ∀ state, I state → I (walk ofName onlyStart x state).2) (before : FirstSet)
    {state : LeadState} (hstate : I state) : I (walkBranches ofName onlyStart before branches state).2 := by
  induction branches generalizing before state with
  | nil =>
    rw [walkBranches.eq_def]
    exact hstate
  | cons x rest ih =>
    rw [walkBranches.eq_def]
    exact ih (fun y hy => hbranches y (List.mem_cons_of_mem _ hy)) _ (hbranches x List.mem_cons_self state hstate)

/-- What the walks through all names keep, a walk through a definition keeps. -/
theorem walk_keeps {I : LeadState → Prop} (hnames : ∀ name state, I state → I (ofName name state).2) (r : Rule)
    {state : LeadState} (hstate : I state) : I (walk ofName onlyStart r state).2 := by
  induction r using Rule.induction_on_parts generalizing state with
  | step r ih =>
    rw [walk_eq]
    cases hshape : r.shape with
    | reference name => exact hnames name state hstate
    | sequence items =>
      rw [hshape] at ih
      exact walkList_keeps (fun x hx s hs => ih x hx hs) .empty hstate
    | choice branches =>
      rw [hshape] at ih
      exact walkBranches_keeps (fun x hx s hs => ih x hx hs) .empty hstate
    | repeated part | ahead part | annotated part | optional part =>
      rw [hshape] at ih
      exact ih part List.mem_cons_self hstate
    | notAhead | literal | regex | eof | indent | script | wrong => exact hstate

end

/-! ### Finding nothing -/

theorem nothing_mem_walkList {ofName : String → Walk} {items : List Rule}
    (hitems : ∀ front x back, items = front ++ x :: back → ∀ s, .nothing ∈ (walk ofName true x s).1.items)
    (before : FirstSet) (state : LeadState) :
    .nothing ∈ (walkList ofName true before items state).1.items := by
  induction items generalizing before state with
  | nil =>
    rw [walkList.eq_def]
    exact SortedSet.mem_insert.2 (.inl rfl)
  | cons x rest ih =>
    have hpassed : .nothing ∈ ((before.erase .nothing).union (walk ofName true x state).1).items :=
      SortedSet.mem_union.2 (.inr (hitems [] x rest rfl state))
    cases rest with
    | nil =>
      rw [walkList.eq_def]
      exact hpassed
    | cons y ys =>
      rw [walkList.eq_def]
      dsimp only
      rw [SortedSet.contains_iff.2 hpassed]
      exact ih (fun front z back heq => hitems (x :: front) z back (congrArg (x :: ·) heq)) _ _

theorem nothing_mem_walkBranches {ofName : String → Walk} {branches : List Rule} (before : FirstSet)
    (state : LeadState) (h : .nothing ∈ before.items ∨
      ∃ x ∈ branches, ∀ s, .nothing ∈ (walk ofName true x s).1.items) :
    .nothing ∈ (walkBranches ofName true before branches state).1.items := by
  induction branches generalizing before state with
  | nil =>
    rw [walkBranches.eq_def]
    rcases h with h | ⟨x, hx, -⟩
    · exact h
    · cases hx
  | cons x rest ih =>
    rw [walkBranches.eq_def]
    refine ih _ _ ?_
    rcases h with h | ⟨y, hy, hnothing⟩
    · exact .inl (SortedSet.mem_union.2 (.inl h))
    · rcases List.mem_cons.1 hy with rfl | hy
      · exact .inl (SortedSet.mem_union.2 (.inr (hnothing state)))
      · exact .inr ⟨y, hy, hnothing⟩

/-- A walk through a definition that may be empty finds nothing if the walks through names do. -/
theorem nothing_mem_walk {inside : Option String} {ofName : String → Walk} {r : Rule}
    (h : MayBeEmpty context inside r) (hnames : ∀ name, Visits context true inside r name →
      MayBeEmpty context inside (.text name) → ∀ s, .nothing ∈ (ofName name s).1.items) (state : LeadState) :
    .nothing ∈ (walk ofName true r state).1.items := by
  induction h generalizing state with
  | itself =>
    rw [walk_eq]
    exact hnames _ .name .itself state
  | expanded hname hlookup hempty =>
    rw [walk_eq]
    exact hnames _ .name (.expanded hname hlookup hempty) state
  | undefined hname hlookup hmem =>
    rw [walk_eq]
    exact hnames _ .name (.undefined hname hlookup hmem) state
  | @leaf inside r hleaf =>
    rw [walk_eq]
    cases hshape : r.shape with
    | reference | sequence | choice | repeated | ahead | annotated =>
      rw [hshape] at hleaf
      cases hleaf
    | optional => exact SortedSet.mem_insert.2 (.inl rfl)
    | notAhead | literal | regex | eof | indent | script | wrong =>
      rw [hshape] at hleaf
      exact hleaf
  | @alternative inside r part hpart _ ih =>
    have hfound := ih fun name hvisits => hnames name (.alternative hpart hvisits)
    rw [walk_eq]
    cases hshape : r.shape with
    | choice branches =>
      rw [hshape] at hpart
      exact nothing_mem_walkBranches .empty state (.inr ⟨part, hpart, hfound⟩)
    | repeated | ahead | annotated =>
      rw [hshape] at hpart
      rw [← List.mem_singleton.1 hpart]
      exact hfound state
    | optional => exact SortedSet.mem_insert.2 (.inl rfl)
    | reference | sequence | notAhead | literal | regex | eof | indent | script | wrong =>
      rw [hshape] at hpart
      cases hpart
  | @sequence inside r items hshape hempty ih =>
    rw [walk_eq, hshape]
    refine nothing_mem_walkList (fun front x back heq s => ?_) .empty state
    subst heq
    refine ih x (List.mem_append_right _ List.mem_cons_self) (fun name hvisits => hnames name ?_) s
    exact .item hshape (fun _ y hy => hempty y (List.mem_append_left _ hy)) hvisits

end PegGrammar.Lead
