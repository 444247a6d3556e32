import Mathlib.Data.List.Forall2
import PegGrammar.Pattern.Matching
import PegGrammar.Proofs.Pattern.Looks

/-!
# Searches that keep abreast

Two searches start at places that the same text follows, perhaps behind different texts and in different
machines. The one machine has the steps of the other, and none of these asserts anything about what stands
before a place. Then the searches go on side by side: both try the same step with the same text in front of
them, and if one of them was there before, so was the other.
-/

namespace PegGrammar.Pattern

/-- Two places, each as far from its start as the other, with the same text behind them. -/
structure Abreast (start start' place place' : Place) : Prop where
  rest : place.rest = place'.rest
  offset : ∃ n, place.offset = start.offset + n ∧ place'.offset = start'.offset + n

theorem Abreast.start {p p' : Place} (h : p.rest = p'.rest) : Abreast p p' p p' := ⟨h, 0, rfl, rfl⟩

theorem Abreast.past {start start' p p' : Place} (h : Abreast start start' p p') (c : Char)
    (cs : List Char) : Abreast start start' (p.past c cs) (p'.past c cs) := by
  obtain ⟨n, hp, hp'⟩ := h.offset
  refine ⟨rfl, n + c.utf8Size, ?_, ?_⟩
  · exact (congrArg (· + c.utf8Size) hp).trans (Nat.add_assoc _ _ _)
  · exact (congrArg (· + c.utf8Size) hp').trans (Nat.add_assoc _ _ _)

/-- What an assertion says depends on nothing but what stands behind a place. -/
def Look.LooksAhead (l : Look) : Prop := ∀ p q : Place, p.rest = q.rest → l.holds p = l.holds q

theorem Look.looksAhead {l : Look} (hstandard : l.isStandard = true) (hbehind : l.looksBehind = false) :
    l.LooksAhead := by
  intro p q hrest
  cases l with
  | textEnd | lineEnd => simp only [holds, hrest]
  | lineEndCrlf | wordEndHalf => cases hstandard
  | textStart | lineStart | lineStartCrlf | wordEdge | noWordEdge | wordStart | wordEnd | wordStartHalf =>
    cases hbehind

theorem Node.looksAhead {node : Node} (hstandard : ∀ l ∈ node.looks, l.isStandard = true)
    (hbehind : node.looksBehind = false) : ∀ l ∈ node.looks, l.LooksAhead := by
  intro l hl
  rw [looksBehind_eq_any, List.any_eq_false] at hbehind
  exact Look.looksAhead (hstandard l hl) (Bool.eq_false_iff.2 (hbehind l hl))

/-- The same step is about to be tried with the same text in front. -/
structure Task {start start' : Place} (bound : Nat) (task : Nat × PlaceIn start)
    (task' : Nat × PlaceIn start') : Prop where
  step : task.1 = task'.1
  lt : task.1 < bound
  place : Abreast start start' task.2.val task'.2.val

section

variable {start start' : Place} {bound : Nat}

theorem Step.Sound.next {step : Step} (h : step.Sound Look.LooksAhead bound) {p : PlaceIn start}
    {p' : PlaceIn start'} (hp : Abreast start start' p.val p'.val) :
    List.Forall₂ (Task bound) (step.next p) (step.next p') := by
  obtain ⟨⟨read, rest, offset, hoffset⟩, hlength⟩ := p
  obtain ⟨⟨read', rest', offset', hoffset'⟩, hlength'⟩ := p'
  cases (hp.rest : rest = rest')
  cases step with
  | stop => exact .nil
  | char c next =>
    cases rest with
    | nil => exact .nil
    | cons d ds =>
      dsimp only [Step.next]
      split
      · exact .cons ⟨rfl, h, hp.past d ds⟩ .nil
      · exact .nil
  | set members next =>
    cases rest with
    | nil => exact .nil
    | cons d ds =>
      dsimp only [Step.next]
      split
      · exact .cons ⟨rfl, h, hp.past d ds⟩ .nil
      · exact .nil
  | look l next =>
    rw [Step.next, Step.next, h.1 _ _ hp.rest]
    split
    · exact .cons ⟨rfl, h.2, hp⟩ .nil
    · exact .nil
  | fork first second => exact .cons ⟨rfl, h.1, hp⟩ (.cons ⟨rfl, h.2, hp⟩ .nil)

end

namespace Machine

/-- A machine has the steps of another, under the same numbers. -/
def Within (m m' : Machine) : Prop := ∀ i, i < m.steps.size → m'.steps[i]? = m.steps[i]?

theorem within_refl (m : Machine) : m.Within m := fun _ _ => rfl

theorem within_enter (m : Machine) (step : Step) : m.Within (m.enter step) := by
  intro i hi
  rw [enter, Array.getElem?_push, if_neg (Nat.ne_of_lt hi)]

/-- Two searches were at the same steps with the same text in front. -/
def SameSeen (m m' : Machine) (start start' : Place) (seen seen' : Std.HashSet Nat) : Prop :=
  ∀ n s, s < m.steps.size →
    seen.contains ((start.offset + n) * m.steps.size + s) =
      seen'.contains ((start'.offset + n) * m'.steps.size + s)

variable {m m' : Machine} {start start' : Place}

theorem index_eq_iff {bound a b s t : Nat} (hs : s < bound) (ht : t < bound) :
    a * bound + s = b * bound + t ↔ a = b ∧ s = t := by
  constructor
  · intro h
    have hpos := Nat.zero_lt_of_lt hs
    have hquotient := congrArg (· / bound) h
    simp only [Nat.mul_comm _ bound, Nat.mul_add_div hpos, Nat.div_eq_of_lt hs, Nat.div_eq_of_lt ht,
      Nat.add_zero] at hquotient
    subst hquotient
    exact ⟨rfl, Nat.add_left_cancel h⟩
  · rintro ⟨rfl, rfl⟩
    rfl

theorem Within.size_le (h : m.Within m') : m.steps.size ≤ m'.steps.size := by
  by_contra hlt
  have hnone := h m'.steps.size (Nat.lt_of_not_le hlt)
  rw [Array.getElem?_eq_none (Nat.le_refl _), Array.getElem?_eq_getElem (Nat.lt_of_not_le hlt)] at hnone
  cases hnone

theorem SameSeen.insert {seen seen' : Std.HashSet Nat} (h : m.SameSeen m' start start' seen seen')
    (hwithin : m.Within m') {s : Nat} (hs : s < m.steps.size) {p p' : Place}
    (hp : Abreast start start' p p') :
    m.SameSeen m' start start' (seen.insert (m.index s p)) (seen'.insert (m'.index s p')) := by
  obtain ⟨k, hk, hk'⟩ := hp.offset
  intro n t ht
  have hsame : (m.index s p == (start.offset + n) * m.steps.size + t) =
      (m'.index s p' == (start'.offset + n) * m'.steps.size + t) := by
    have hle := hwithin.size_le
    rw [Bool.eq_iff_iff, beq_iff_eq, beq_iff_eq, index, index, index_eq_iff hs ht,
      index_eq_iff (Nat.lt_of_lt_of_le hs hle) (Nat.lt_of_lt_of_le ht hle), hk, hk',
      Nat.add_left_cancel_iff, Nat.add_left_cancel_iff]
  rw [Std.HashSet.contains_insert, Std.HashSet.contains_insert, hsame, h n t ht]

theorem SameSeen.index {seen seen' : Std.HashSet Nat} (h : m.SameSeen m' start start' seen seen')
    {s : Nat} (hs : s < m.steps.size) {p p' : Place} (hp : Abreast start start' p p') :
    seen.contains (m.index s p) = seen'.contains (m'.index s p') := by
  obtain ⟨n, hn, hn'⟩ := hp.offset
  rw [Machine.index, Machine.index, hn, hn']
  exact h n s hs

/-- Searches that are side by side stay so, and find ends side by side. -/
theorem search_abreast (hsound : ∀ step ∈ m.steps, step.Sound Look.LooksAhead m.steps.size)
    (hwithin : m.Within m') {firstOnly : Bool} {seen seen' : Std.HashSet Nat} {found found' : List Place}
    {tasks : List (Nat × PlaceIn start)} {tasks' : List (Nat × PlaceIn start')}
    (hseen : m.SameSeen m' start start' seen seen')
    (hfound : List.Forall₂ (Abreast start start') found found')
    (htasks : List.Forall₂ (Task m.steps.size) tasks tasks') :
    List.Forall₂ (Abreast start start') (m.search firstOnly start seen found tasks)
      (m'.search firstOnly start' seen' found' tasks') := by
  have hstep : ∀ s (hs : s < m.steps.size), ∃ hs' : s < m'.steps.size, m'.steps[s] = m.steps[s] := by
    intro s hs
    have hs' := Nat.lt_of_lt_of_le hs hwithin.size_le
    have heq := hwithin s hs
    rw [Array.getElem?_eq_getElem hs', Array.getElem?_eq_getElem hs] at heq
    exact ⟨hs', Option.some.inj heq⟩
  induction seen, found, tasks using Machine.search.induct m firstOnly start
    generalizing seen' found' tasks' with
  | case1 seen found =>
    cases htasks
    rw [search, search]
    exact List.rel_reverse hfound
  | case2 seen found s p tasks hs hp ih =>
    obtain ⟨⟨_, p'⟩, tasks', ⟨rfl, -, hplace⟩, hrest, rfl⟩ := List.forall₂_cons_left_iff.1 htasks
    obtain ⟨hs', -⟩ := hstep s hs
    have hp' := (hseen.index hs hplace).symm.trans hp
    rw [search, dif_pos hs, dif_pos hp, search, dif_pos hs', dif_pos hp']
    exact ih hseen hfound hrest
  | case3 seen found s p tasks hs hp hstop hfirst =>
    obtain ⟨⟨_, p'⟩, tasks', ⟨rfl, -, hplace⟩, hrest, rfl⟩ := List.forall₂_cons_left_iff.1 htasks
    obtain ⟨hs', hsame⟩ := hstep s hs
    have hp' : ¬ seen'.contains (m'.index s p'.val) = true := hseen.index hs hplace ▸ hp
    rw [search, dif_pos hs, dif_neg hp, search, dif_pos hs', dif_neg hp']
    dsimp only
    rw [hsame, hstop]
    dsimp only
    rw [if_pos hfirst, if_pos hfirst]
    exact List.rel_reverse (.cons hplace hfound)
  | case4 seen found s p tasks hs hp after hstop hmore =>
    rename_i ih
    obtain ⟨⟨_, p'⟩, tasks', ⟨rfl, -, hplace⟩, hrest, rfl⟩ := List.forall₂_cons_left_iff.1 htasks
    obtain ⟨hs', hsame⟩ := hstep s hs
    have hp' : ¬ seen'.contains (m'.index s p'.val) = true := hseen.index hs hplace ▸ hp
    rw [search, dif_pos hs, dif_neg hp, search, dif_pos hs', dif_neg hp']
    dsimp only
    rw [hsame, hstop]
    dsimp only
    rw [if_neg hmore, if_neg hmore]
    exact ih (hseen.insert hwithin hs hplace) (.cons hplace hfound) hrest
  | case5 seen found s p tasks hs hp after hgoes =>
    rename_i ih
    obtain ⟨⟨_, p'⟩, tasks', ⟨rfl, -, hplace⟩, hrest, rfl⟩ := List.forall₂_cons_left_iff.1 htasks
    obtain ⟨hs', hsame⟩ := hstep s hs
    have hp' : ¬ seen'.contains (m'.index s p'.val) = true := hseen.index hs hplace ▸ hp
    have hnext := (hsound _ (Array.getElem_mem hs)).next hplace
    rw [search, dif_pos hs, dif_neg hp, search, dif_pos hs', dif_neg hp']
    dsimp only
    rw [hsame]
    split
    · rename_i hstop
      exact (hgoes hstop).elim
    · exact ih (hseen.insert hwithin hs hplace) hfound (List.rel_append hnext hrest)
  | case6 seen found s p tasks hs ih =>
    obtain ⟨_, _, ⟨-, hlt, -⟩, -⟩ := List.forall₂_cons_left_iff.1 htasks
    exact (hs hlt).elim

theorem Sound.search_abreast (hm : m.Sound Look.LooksAhead) (hwithin : m.Within m') (firstOnly : Bool)
    {p p' : Place} (hrest : p.rest = p'.rest) {seen' : Std.HashSet Nat}
    (hseen : m.SameSeen m' p p' ∅ seen') :
    List.Forall₂ (Abreast p p') (m.search firstOnly p ∅ [] [(m.entry, ⟨p, rfl⟩)])
      (m'.search firstOnly p' seen' [] [(m.entry, ⟨p', rfl⟩)]) :=
  Machine.search_abreast hm.steps hwithin hseen .nil
    (.cons ⟨rfl, hm.entry, .start hrest⟩ .nil)

end Machine

/-- A tree that looks at nothing in front of a place matches the same behind any two texts. -/
theorem Node.ends_abreast {node : Node} (hstandard : ∀ l ∈ node.looks, l.isStandard = true)
    (hbehind : node.looksBehind = false) {p q : Place} (hrest : p.rest = q.rest) :
    List.Forall₂ (Abreast p q) (node.ends p) (node.ends q) :=
  (sound_machine (Node.looksAhead hstandard hbehind)).search_abreast (Machine.within_refl _) false hrest
    fun _ _ _ => by rw [Std.HashSet.contains_empty, Std.HashSet.contains_empty]

end PegGrammar.Pattern
