import Mathlib.Logic.Function.Basic
import PegGrammar.Proofs.Finite.BitSet
import PegGrammar.Proofs.Finite.Registry
import PegGrammar.Proofs.Finite.SortedSet

/-!
# Bits and sorted sets agree

Sets that are kept as bits over one registry cannot be told from sorted sets: asked the same, in any order and
about any number of sets, both give the same answers, and have the same members all along.

A set of bits stands for the values that its numbers are bound to, and each of its numbers is bound. What is
registered later does not disturb this, because a binding is never changed and a new one is of a number that was
bound to nothing, so that no set has it. Hence one relation between the two representations, which growing the
registry keeps, is enough: each operation keeps it and answers alike where it holds.
-/

namespace PegGrammar

/-- How two sets are combined. -/
inductive Combination where
  | union
  | inter
  | diff
  deriving DecidableEq, Repr

/-- What is asked of sets that are held in numbered places, and of the registry behind them. -/
inductive SetCall (α : Type) where
  /-- Puts a new, empty set in a place. -/
  | make (place : Nat)
  | copy (place source : Nat)
  | add (place : Nat) (value : α)
  | remove (place : Nat) (value : α)
  | contains (place : Nat) (value : α)
  | clear (place : Nat)
  | size (place : Nat)
  | isEmpty (place : Nat)
  | overlaps (left right : Nat)
  /-- Combines two sets into a place; in place, if it is that of the first. -/
  | combine (how : Combination) (place left right : Nat)
  /-- Registers a value, if it is not. -/
  | number (value : α)
  /-- Tries to bind a value to a chosen number. -/
  | bind (value : α) (id : Nat)

/-- What a call gives back. -/
inductive SetAnswer where
  | done
  | truth (holds : Bool)
  | count (n : Nat)
  | refused (message : String)
  deriving DecidableEq, Repr

namespace SetCall

variable {α σ : Type}

/-- The answers to some calls, one after the other, and what is held after them. -/
def run (step : SetCall α → σ → SetAnswer × σ) : List (SetCall α) → σ → List SetAnswer × σ
  | [], s => ([], s)
  | call :: calls, s =>
    let (answer, next) := step call s
    let (answers, last) := run step calls next
    (answer :: answers, last)

end SetCall

/-! ### Bits -/

/-- Sets of bits over one registry. A place where none was put has an empty one. -/
structure BitPlaces (α : Type) where
  registry : Registry α
  sets : Nat → BitSet

namespace BitPlaces

variable {α : Type}

def start : BitPlaces α := ⟨.empty 0, fun _ => .empty 0⟩

def put (s : BitPlaces α) (place : Nat) (set : BitSet) : BitPlaces α :=
  { s with sets := Function.update s.sets place set }

def combination : Combination → BitSet → BitSet → BitSet
  | .union => .union
  | .inter => .inter
  | .diff => .diff

variable [DecidableEq α]

def step : SetCall α → BitPlaces α → SetAnswer × BitPlaces α
  | .make place, s => (.done, s.put place (.empty s.registry.identity))
  | .copy place source, s => (.done, s.put place (s.sets source))
  | .add place value, s =>
    let (fresh, set, registry) := (s.sets place).addValue s.registry value
    (.truth fresh, { s with registry }.put place set)
  | .remove place value, s =>
    let (found, set) := (s.sets place).removeValue s.registry value
    (.truth found, s.put place set)
  | .contains place value, s => (.truth ((s.sets place).containsValue s.registry value), s)
  | .clear place, s => (.done, s.put place (s.sets place).clear)
  | .size place, s => (.count (s.sets place).size, s)
  | .isEmpty place, s => (.truth (s.sets place).isEmpty, s)
  | .overlaps left right, s =>
    match (s.sets left).combine? BitSet.overlaps (s.sets right) with
    | .ok shared => (.truth shared, s)
    | .error message => (.refused message, s)
  | .combine how place left right, s =>
    match (s.sets left).combine? (combination how) (s.sets right) with
    | .ok set => (.done, s.put place set)
    | .error message => (.refused message, s)
  | .number value, s => (.done, { s with registry := (s.registry.getOrAdd value).2 })
  | .bind value id, s =>
    match s.registry.bindAs value id with
    | .ok registry => (.done, { s with registry })
    | .error _ => (.done, s)

/-- The values of the set in a place. -/
def values (s : BitPlaces α) (place : Nat) : List α := (s.sets place).values s.registry

end BitPlaces

/-! ### Sorted sets -/

/-- Sorted sets in places. They need no registry, so registering changes nothing. -/
abbrev SortedPlaces (α : Type) [Ord α] := Nat → SortedSet α

namespace SortedPlaces

variable {α : Type} [Ord α] [Std.TransOrd α] [DecidableEq α]

def start : SortedPlaces α := fun _ => .empty

def combination : Combination → SortedSet α → SortedSet α → SortedSet α
  | .union => .union
  | .inter => .inter
  | .diff => .diff

def step : SetCall α → SortedPlaces α → SetAnswer × SortedPlaces α
  | .make place, sets => (.done, Function.update sets place .empty)
  | .copy place source, sets => (.done, Function.update sets place (sets source))
  | .add place value, sets =>
    (.truth (!(sets place).contains value), Function.update sets place ((sets place).insert value))
  | .remove place value, sets =>
    (.truth ((sets place).contains value), Function.update sets place ((sets place).erase value))
  | .contains place value, sets => (.truth ((sets place).contains value), sets)
  | .clear place, sets => (.done, Function.update sets place .empty)
  | .size place, sets => (.count (sets place).size, sets)
  | .isEmpty place, sets => (.truth (sets place).isEmpty, sets)
  | .overlaps left right, sets => (.truth ((sets left).overlaps (sets right)), sets)
  | .combine how place left right, sets =>
    (.done, Function.update sets place (combination how (sets left) (sets right)))
  | .number _, sets => (.done, sets)
  | .bind _ _, sets => (.done, sets)

end SortedPlaces

variable {α : Type} [Ord α]

/-! ### One set, twice -/

/-- A set of bits has the numbers of the members of a sorted set, and no others. -/
structure Represents (r : Registry α) (bits : BitSet) (set : SortedSet α) : Prop where
  registry : bits.registry = r.identity
  bound : ∀ id, bits.containsId id = true → ∃ value, (id, value) ∈ r.entries ∧ value ∈ set.items
  numbered : ∀ value ∈ set.items, ∃ id, (id, value) ∈ r.entries ∧ bits.containsId id = true

namespace Represents

variable {r : Registry α} {bits more : BitSet} {set other : SortedSet α}

theorem empty (r : Registry α) : Represents r (.empty r.identity) (.empty : SortedSet α) := by
  refine ⟨rfl, fun id hid => ?_, fun value hvalue => ?_⟩
  · rw [BitSet.containsId_empty] at hid
    cases hid
  · cases hvalue

theorem clear (h : Represents r bits set) : Represents r bits.clear .empty := by
  refine ⟨h.registry, fun id hid => ?_, fun value hvalue => ?_⟩
  · rw [BitSet.containsId_clear] at hid
    cases hid
  · cases hvalue

theorem mono (h : Represents r bits set) {r' : Registry α} (hidentity : r'.identity = r.identity)
    (hsubset : r.entries ⊆ r'.entries) : Represents r' bits set := by
  refine ⟨h.registry.trans hidentity.symm, fun id hid => ?_, fun value hvalue => ?_⟩
  · obtain ⟨value, hmem, hvalue⟩ := h.bound id hid
    exact ⟨value, hsubset hmem, hvalue⟩
  · obtain ⟨id, hmem, hid⟩ := h.numbered value hvalue
    exact ⟨id, hsubset hmem, hid⟩

theorem exists_bound (h : Represents r bits set) {id : Nat} (hid : bits.containsId id = true) :
    ∃ value, (id, value) ∈ r.entries := by
  obtain ⟨value, hmem, -⟩ := h.bound id hid
  exact ⟨value, hmem⟩

theorem exists_numbered (h : Represents r bits set) {value : α} (hvalue : value ∈ set.items) :
    ∃ id, (id, value) ∈ r.entries := by
  obtain ⟨id, hmem, -⟩ := h.numbered value hvalue
  exact ⟨id, hmem⟩

/-- If only numbers and values that are bound occur, it is enough to compare the two ends of each binding. -/
theorem of_containsId_iff (hregistry : bits.registry = r.identity)
    (hbound : ∀ id, bits.containsId id = true → ∃ value, (id, value) ∈ r.entries)
    (hnumbered : ∀ value ∈ set.items, ∃ id, (id, value) ∈ r.entries)
    (hiff : ∀ id value, (id, value) ∈ r.entries →
      (bits.containsId id = true ↔ value ∈ set.items)) : Represents r bits set := by
  refine ⟨hregistry, fun id hid => ?_, fun value hvalue => ?_⟩
  · obtain ⟨value, hmem⟩ := hbound id hid
    exact ⟨value, hmem, (hiff id value hmem).1 hid⟩
  · obtain ⟨id, hmem⟩ := hnumbered value hvalue
    exact ⟨id, hmem, (hiff id value hmem).2 hvalue⟩

theorem isEmpty_eq (h : Represents r bits set) : bits.isEmpty = set.isEmpty := by
  rw [Bool.eq_iff_iff, BitSet.isEmpty_iff, SortedSet.isEmpty_iff]
  constructor
  · intro hempty value hvalue
    obtain ⟨id, -, hid⟩ := h.numbered value hvalue
    rw [hempty id] at hid
    cases hid
  · intro hempty id
    rw [← Bool.not_eq_true]
    intro hid
    obtain ⟨value, -, hvalue⟩ := h.bound id hid
    exact hempty value hvalue

theorem length_values (h : Represents r bits set) (hr : r.Sound) :
    (bits.values r).length = bits.size := by
  rw [BitSet.values, List.length_filterMap_eq_countP, ← BitSet.length_ids, List.countP_eq_length]
  intro id hid
  obtain ⟨value, hmem⟩ := h.exists_bound (BitSet.mem_ids.1 hid)
  rw [(Registry.value?_eq_some_iff hr).2 hmem]
  rfl

variable [DecidableEq α]

theorem containsId_iff (h : Represents r bits set) (hr : r.Sound) {id : Nat} {value : α}
    (hmem : (id, value) ∈ r.entries) : bits.containsId id = true ↔ value ∈ set.items := by
  constructor
  · intro hid
    obtain ⟨bound, hbound, hitem⟩ := h.bound id hid
    rwa [hr.value_eq hmem hbound]
  · intro hvalue
    obtain ⟨known, hknown, hid⟩ := h.numbered value hvalue
    rwa [hr.id_eq hmem hknown]

theorem containsValue_eq (h : Represents r bits set) (hr : r.Sound) (value : α) :
    bits.containsValue r value = set.contains value := by
  rw [Bool.eq_iff_iff, SortedSet.contains_iff, BitSet.containsValue]
  cases hid : r.id? value with
  | some id => exact h.containsId_iff hr (Registry.mem_of_id? hid)
  | none =>
    simp only [Option.any_none, Bool.false_eq_true, false_iff]
    intro hvalue
    obtain ⟨id, hmem⟩ := h.exists_numbered hvalue
    exact Registry.id?_eq_none_iff.1 hid _ hmem rfl

theorem removeValue_fst (h : Represents r bits set) (hr : r.Sound) (value : α) :
    (bits.removeValue r value).1 = set.contains value := by
  rw [← h.containsValue_eq hr, BitSet.removeValue, BitSet.containsValue]
  cases r.id? value with
  | none => rfl
  | some id => exact BitSet.eraseId_fst bits id

theorem removeValue (h : Represents r bits set) (hr : r.Sound) (value : α) :
    Represents r (bits.removeValue r value).2 (set.erase value) := by
  rw [BitSet.removeValue]
  cases hid : r.id? value with
  | none =>
    refine of_containsId_iff h.registry (fun _ => h.exists_bound)
      (fun other hother => h.exists_numbered (SortedSet.mem_erase.1 hother).1) fun id other hentry => ?_
    rw [h.containsId_iff hr hentry, SortedSet.mem_erase,
      and_iff_left (Registry.id?_eq_none_iff.1 hid _ hentry)]
  | some number =>
    have hmem := Registry.mem_of_id? hid
    refine of_containsId_iff ((BitSet.registry_removeId _ _).trans h.registry)
      (fun id hid => h.exists_bound ((BitSet.containsId_removeId id).1 hid).1)
      (fun other hother => h.exists_numbered (SortedSet.mem_erase.1 hother).1) fun id other hentry => ?_
    have hself : id = number ↔ other = value :=
      ⟨fun heq => hr.value_eq (heq ▸ hentry) hmem, fun heq => hr.id_eq (heq ▸ hentry) hmem⟩
    change (bits.removeId number).containsId id = true ↔ _
    rw [BitSet.containsId_removeId, SortedSet.mem_erase, h.containsId_iff hr hentry, ne_eq, hself]

theorem mem_values_iff (h : Represents r bits set) (hr : r.Sound) {value : α} :
    value ∈ bits.values r ↔ value ∈ set.items := by
  rw [BitSet.values, List.mem_filterMap]
  constructor
  · rintro ⟨id, hid, hvalue⟩
    exact (h.containsId_iff hr ((Registry.value?_eq_some_iff hr).1 hvalue)).1 (BitSet.mem_ids.1 hid)
  · intro hvalue
    obtain ⟨id, hmem, hid⟩ := h.numbered value hvalue
    exact ⟨id, BitSet.mem_ids.2 hid, (Registry.value?_eq_some_iff hr).2 hmem⟩

theorem size_eq [Std.TransOrd α] (h : Represents r bits set) (hr : r.Sound) : bits.size = set.size := by
  have hperm : (bits.values r).Perm set.items :=
    (List.perm_ext_iff_of_nodup (hr.nodup_values bits) set.nodup_items).2 fun _ => h.mem_values_iff hr
  rw [← h.length_values hr, hperm.length_eq, SortedSet.size]

theorem overlaps_eq (h : Represents r bits set) (hmore : Represents r more other) (hr : r.Sound) :
    bits.overlaps more = set.overlaps other := by
  rw [Bool.eq_iff_iff, BitSet.overlaps_iff, SortedSet.overlaps_iff]
  constructor
  · rintro ⟨id, hleft, hright⟩
    obtain ⟨value, hmem, hvalue⟩ := h.bound id hleft
    exact ⟨value, hvalue, (hmore.containsId_iff hr hmem).1 hright⟩
  · rintro ⟨value, hleft, hright⟩
    obtain ⟨id, hmem, hid⟩ := h.numbered value hleft
    exact ⟨id, hid, (hmore.containsId_iff hr hmem).2 hright⟩

variable [Std.TransOrd α] [Std.LawfulEqOrd α]

theorem addValue (h : Represents r bits set) (hr : r.Sound) (value : α) :
    (bits.addValue r value).1 = !set.contains value ∧
      Represents (bits.addValue r value).2.2 (bits.addValue r value).2.1 (set.insert value) := by
  have hsound := hr.getOrAdd value
  have hmem := r.mem_getOrAdd value
  have hlater := h.mono (r.identity_getOrAdd value) (hr.entries_subset_getOrAdd value)
  have hpositive : (r.getOrAdd value).1 ≠ 0 := Nat.pos_iff_ne_zero.1 (hsound.positive _ hmem)
  constructor
  · change (bits.insertId (r.getOrAdd value).1).1 = !set.contains value
    rw [Bool.eq_iff_iff, BitSet.insertId_fst, and_iff_right hpositive, Bool.not_eq_true', ← Bool.not_eq_true,
      ← Bool.not_eq_true, SortedSet.contains_iff, hlater.containsId_iff hsound hmem]
  · refine of_containsId_iff ((BitSet.registry_addId _ _).trans hlater.registry) (fun id hid => ?_)
      (fun other hother => ?_) (fun id other hentry => ?_)
    · rcases (BitSet.containsId_addId id).1 hid with hid | ⟨rfl, -⟩
      · exact hlater.exists_bound hid
      · exact ⟨value, hmem⟩
    · rcases SortedSet.mem_insert.1 hother with rfl | hother
      · exact ⟨_, hmem⟩
      · exact hlater.exists_numbered hother
    · have hself : id = (r.getOrAdd value).1 ↔ other = value :=
        ⟨fun heq => hsound.value_eq (heq ▸ hentry) hmem, fun heq => hsound.id_eq (heq ▸ hentry) hmem⟩
      change (bits.addId (r.getOrAdd value).1).containsId id = true ↔ _
      rw [BitSet.containsId_addId, SortedSet.mem_insert, hlater.containsId_iff hsound hentry, hself,
        and_iff_left hpositive, or_comm]

theorem combination (h : Represents r bits set) (hmore : Represents r more other) (hr : r.Sound)
    (how : Combination) :
    Represents r (BitPlaces.combination how bits more) (SortedPlaces.combination how set other) := by
  cases how with
  | union =>
    refine of_containsId_iff h.registry (fun id hid => ?_) (fun value hvalue => ?_)
      (fun id value hmem => ?_)
    · rcases BitSet.containsId_union.1 hid with hid | hid
      · exact h.exists_bound hid
      · exact hmore.exists_bound hid
    · rcases SortedSet.mem_union.1 hvalue with hvalue | hvalue
      · exact h.exists_numbered hvalue
      · exact hmore.exists_numbered hvalue
    · exact BitSet.containsId_union.trans ((or_congr (h.containsId_iff hr hmem)
        (hmore.containsId_iff hr hmem)).trans SortedSet.mem_union.symm)
  | inter =>
    refine of_containsId_iff h.registry (fun id hid => h.exists_bound (BitSet.containsId_inter.1 hid).1)
      (fun value hvalue => h.exists_numbered (SortedSet.mem_inter.1 hvalue).1) fun id value hmem => ?_
    exact BitSet.containsId_inter.trans ((and_congr (h.containsId_iff hr hmem)
      (hmore.containsId_iff hr hmem)).trans SortedSet.mem_inter.symm)
  | diff =>
    refine of_containsId_iff h.registry (fun id hid => h.exists_bound (BitSet.containsId_diff.1 hid).1)
      (fun value hvalue => h.exists_numbered (SortedSet.mem_diff.1 hvalue).1) fun id value hmem => ?_
    have hnot : more.containsId id = false ↔ value ∉ other.items := by
      rw [← hmore.containsId_iff hr hmem, Bool.not_eq_true]
    exact BitSet.containsId_diff.trans ((and_congr (h.containsId_iff hr hmem) hnot).trans
      SortedSet.mem_diff.symm)

end Represents

/-! ### All sets -/

/-- The sets in all places have the same members on both sides. -/
structure BitPlaces.Represents (s : BitPlaces α) (sets : SortedPlaces α) : Prop where
  sound : s.registry.Sound
  each : ∀ place, PegGrammar.Represents s.registry (s.sets place) (sets place)

namespace BitPlaces.Represents

variable {s : BitPlaces α} {sets : SortedPlaces α}

theorem put (h : s.Represents sets) (place : Nat) {bits : BitSet} {set : SortedSet α}
    (hset : PegGrammar.Represents s.registry bits set) :
    (s.put place bits).Represents (Function.update sets place set) := by
  refine ⟨h.sound, fun other => ?_⟩
  by_cases heq : other = place
  · subst heq
    simpa [BitPlaces.put] using hset
  · simpa [BitPlaces.put, heq] using h.each other

theorem register (h : s.Represents sets) {registry : Registry α} (hsound : registry.Sound)
    (hidentity : registry.identity = s.registry.identity) (hsubset : s.registry.entries ⊆ registry.entries) :
    BitPlaces.Represents { s with registry } sets :=
  ⟨hsound, fun place => (h.each place).mono hidentity hsubset⟩

theorem combine?_eq (h : s.Represents sets) {β : Type} (op : BitSet → BitSet → β) (left right : Nat) :
    (s.sets left).combine? op (s.sets right) = .ok (op (s.sets left) (s.sets right)) := by
  rw [BitSet.combine?, if_pos ((h.each left).registry.trans (h.each right).registry.symm)]

variable [DecidableEq α] [Std.TransOrd α] [Std.LawfulEqOrd α]

/-- One call is answered alike, and the sets have the same members after it. -/
theorem step (h : s.Represents sets) (call : SetCall α) :
    (BitPlaces.step call s).1 = (SortedPlaces.step call sets).1 ∧
      (BitPlaces.step call s).2.Represents (SortedPlaces.step call sets).2 := by
  cases call with
  | make place => exact ⟨rfl, h.put place (.empty _)⟩
  | copy place source => exact ⟨rfl, h.put place (h.each source)⟩
  | add place value =>
    obtain ⟨hfresh, hset⟩ := (h.each place).addValue h.sound value
    have hlater := h.register (h.sound.getOrAdd value) (s.registry.identity_getOrAdd value)
      (h.sound.entries_subset_getOrAdd value)
    exact ⟨congrArg SetAnswer.truth hfresh, hlater.put place hset⟩
  | remove place value =>
    exact ⟨congrArg SetAnswer.truth ((h.each place).removeValue_fst h.sound value),
      h.put place ((h.each place).removeValue h.sound value)⟩
  | contains place value =>
    exact ⟨congrArg SetAnswer.truth ((h.each place).containsValue_eq h.sound value), h⟩
  | clear place => exact ⟨rfl, h.put place (h.each place).clear⟩
  | size place => exact ⟨congrArg SetAnswer.count ((h.each place).size_eq h.sound), h⟩
  | isEmpty place => exact ⟨congrArg SetAnswer.truth (h.each place).isEmpty_eq, h⟩
  | overlaps left right =>
    rw [BitPlaces.step, h.combine?_eq]
    exact ⟨congrArg SetAnswer.truth ((h.each left).overlaps_eq (h.each right) h.sound), h⟩
  | combine how place left right =>
    rw [BitPlaces.step, h.combine?_eq]
    exact ⟨rfl, h.put place ((h.each left).combination (h.each right) h.sound how)⟩
  | number value =>
    exact ⟨rfl, h.register (h.sound.getOrAdd value) (s.registry.identity_getOrAdd value)
      (h.sound.entries_subset_getOrAdd value)⟩
  | bind value id =>
    rw [BitPlaces.step]
    split
    · rename_i registry hbind
      exact ⟨rfl, h.register (h.sound.bindAs hbind) (Registry.identity_bindAs hbind)
        (Registry.entries_subset_bindAs hbind)⟩
    · exact ⟨rfl, h⟩

theorem run (h : s.Represents sets) (calls : List (SetCall α)) :
    (SetCall.run BitPlaces.step calls s).1 = (SetCall.run SortedPlaces.step calls sets).1 ∧
      (SetCall.run BitPlaces.step calls s).2.Represents
        (SetCall.run SortedPlaces.step calls sets).2 := by
  induction calls generalizing s sets with
  | nil => exact ⟨rfl, h⟩
  | cons call calls ih =>
    obtain ⟨hanswer, hnext⟩ := h.step call
    obtain ⟨hanswers, hlast⟩ := ih hnext
    exact ⟨congrArg₂ List.cons hanswer hanswers, hlast⟩

end BitPlaces.Represents

namespace SetCall

/-- Whatever is done, in whatever order, to any number of sets and to the registry in between, sets of bits and
sorted sets give the same answers and list the same values, each once. -/
theorem bits_agree_with_sorted [DecidableEq α] [Std.TransOrd α] [Std.LawfulEqOrd α]
    (calls : List (SetCall α)) :
    (run BitPlaces.step calls .start).1 = (run SortedPlaces.step calls .start).1 ∧
      ∀ place, ((run BitPlaces.step calls .start).2.values place).Nodup ∧
        ((run SortedPlaces.step calls .start).2 place).items.Nodup ∧
        ∀ value, value ∈ (run BitPlaces.step calls .start).2.values place ↔
          value ∈ ((run SortedPlaces.step calls .start).2 place).items := by
  have hstart : (BitPlaces.start : BitPlaces α).Represents SortedPlaces.start :=
    ⟨Registry.sound_empty 0, fun _ => .empty _⟩
  obtain ⟨hanswers, hlast⟩ := hstart.run calls
  refine ⟨hanswers, fun place => ⟨?_, SortedSet.nodup_items _, fun value => ?_⟩⟩
  · exact hlast.sound.nodup_values _
  · exact (hlast.each place).mem_values_iff hlast.sound

/-- Two sets over a registry with a gap between its numbers; a value that is registered while they are in use,
and one that is refused, because its number is taken. -/
def gaps : List (SetCall String) :=
  [.make 0, .add 0 "if", .bind "else" 130, .bind "do" 130, .add 1 "else", .add 1 "if", .number "while",
    .contains 0 "while", .combine .diff 2 1 0, .remove 0 "never", .overlaps 0 1, .size 1,
    .combine .union 0 0 2, .isEmpty 2]

theorem bits_agree_with_sorted_gaps :
    (run BitPlaces.step gaps .start).1 =
      [.done, .truth true, .done, .done, .truth true, .truth true, .done, .truth false, .done,
        .truth false, .truth true, .count 2, .done, .truth false] ∧
    (run BitPlaces.step gaps .start).1 = (run SortedPlaces.step gaps .start).1 ∧
      ∀ place, ((run BitPlaces.step gaps .start).2.values place).Nodup ∧
        ((run SortedPlaces.step gaps .start).2 place).items.Nodup ∧
        ∀ value, value ∈ (run BitPlaces.step gaps .start).2.values place ↔
          value ∈ ((run SortedPlaces.step gaps .start).2 place).items :=
  ⟨by decide +kernel, bits_agree_with_sorted gaps⟩

end SetCall

end PegGrammar
