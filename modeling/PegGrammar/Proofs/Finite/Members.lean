import Mathlib.Data.Finset.Basic
import Mathlib.Data.Finset.Card
import PegGrammar.Proofs.Finite.Agreement

/-!
# Bits are finite sets of numbers

Sets of bits over one registry are followed call by call beside finite sets of numbers, which may be bound to a value
or not. The words of a set are followed too: they say nothing about the members, and the sets that meet in a call may
have any numbers of them.

What a set of bits has to do with a finite set is only which numbers it contains and how many words it has. Every
answer it gives and every list it makes is read off from these two, so a call has to be looked at once for each.
-/

namespace PegGrammar

/-- What changes sets that are held in numbered places. -/
inductive NumberCall where
  | add (place id : Nat)
  | remove (place id : Nat)
  | clear (place : Nat)
  /-- Combines the set in a place with another one, in place. -/
  | combine (how : Combination) (place other : Nat)

/-- A finite set of numbers, and how many words are to be set aside for it. -/
structure NumberSet where
  members : Finset Nat
  room : Nat

namespace NumberSet

def empty : NumberSet := ⟨∅, 0⟩

/-- Zero is no number, so it takes no room either. -/
def insert (s : NumberSet) (id : Nat) : NumberSet :=
  if id = 0 then s else ⟨Insert.insert id s.members, max s.room (id / 64 + 1)⟩

def erase (s : NumberSet) (id : Nat) : NumberSet := { s with members := s.members.erase id }

def clear (s : NumberSet) : NumberSet := { s with members := ∅ }

def combination : Combination → NumberSet → NumberSet → NumberSet
  | .union, s, t => ⟨s.members ∪ t.members, max s.room t.room⟩
  | .inter, s, t => ⟨s.members ∩ t.members, s.room⟩
  | .diff, s, t => ⟨s.members \ t.members, s.room⟩

end NumberSet

namespace NumberCall

/-- What a call answers, and the sets of bits after it. -/
def onBits : NumberCall → (Nat → BitSet) → SetAnswer × (Nat → BitSet)
  | .add place id, sets =>
    let (fresh, set) := (sets place).insertId id
    (.truth fresh, Function.update sets place set)
  | .remove place id, sets =>
    let (found, set) := (sets place).eraseId id
    (.truth found, Function.update sets place set)
  | .clear place, sets => (.done, Function.update sets place (sets place).clear)
  | .combine how place other, sets =>
    match (sets place).combine? (BitPlaces.combination how) (sets other) with
    | .ok set => (.done, Function.update sets place set)
    | .error message => (.refused message, sets)

/-- What a call is to answer, and the sets of numbers after it. -/
def onSets : NumberCall → (Nat → NumberSet) → SetAnswer × (Nat → NumberSet)
  | .add place id, sets =>
    (.truth (id ≠ 0 ∧ id ∉ (sets place).members), Function.update sets place ((sets place).insert id))
  | .remove place id, sets =>
    (.truth (id ∈ (sets place).members), Function.update sets place ((sets place).erase id))
  | .clear place, sets => (.done, Function.update sets place (sets place).clear)
  | .combine how place other, sets =>
    (.done, Function.update sets place (NumberSet.combination how (sets place) (sets other)))

/-- The sets of bits after some calls, one after the other. -/
def bitsAfter (calls : List NumberCall) (sets : Nat → BitSet) : Nat → BitSet :=
  calls.foldl (fun sets call => (call.onBits sets).2) sets

def setsAfter (calls : List NumberCall) (sets : Nat → NumberSet) : Nat → NumberSet :=
  calls.foldl (fun sets call => (call.onSets sets).2) sets

end NumberCall

/-! ### One set -/

namespace BitSet

/-- A set of bits over a registry has the given members and words. -/
structure Keeps (registry : Nat) (bits : BitSet) (set : NumberSet) : Prop where
  registry_eq : bits.registry = registry
  containsId_iff : ∀ id, bits.containsId id = true ↔ id ∈ set.members
  zero_notMem : 0 ∉ set.members
  words_eq : bits.words = set.room

namespace Keeps

variable {registry : Nat} {bits more : BitSet} {set other : NumberSet}

theorem empty (registry : Nat) : Keeps registry (.empty registry) .empty := by
  refine ⟨rfl, fun id => ?_, Finset.notMem_empty 0, rfl⟩
  simp [containsId_empty, NumberSet.empty]

theorem addId (h : Keeps registry bits set) (id : Nat) : Keeps registry (bits.addId id) (set.insert id) := by
  by_cases hid : id = 0
  · rwa [hid, BitSet.addId, insertId, if_pos rfl, NumberSet.insert, if_pos rfl]
  rw [NumberSet.insert, if_neg hid]
  refine ⟨(registry_addId _ _).trans h.registry_eq, fun other => ?_, ?_, ?_⟩
  · simp [containsId_addId, h.containsId_iff, hid, or_comm]
  · simp [h.zero_notMem, Ne.symm hid]
  · rw [words_addId hid, h.words_eq]
    rfl

theorem removeId (h : Keeps registry bits set) (id : Nat) :
    Keeps registry (bits.removeId id) (set.erase id) := by
  refine ⟨(registry_removeId _ _).trans h.registry_eq, fun other => ?_, ?_, ?_⟩
  · rw [containsId_removeId, h.containsId_iff, NumberSet.erase, Finset.mem_erase, and_comm]
  · exact fun hzero => h.zero_notMem (Finset.mem_of_mem_erase hzero)
  · exact (words_removeId _ _).trans h.words_eq

theorem clear (h : Keeps registry bits set) : Keeps registry bits.clear set.clear := by
  refine ⟨h.registry_eq, fun id => ?_, Finset.notMem_empty 0, ?_⟩
  · simp [containsId_clear, NumberSet.clear]
  · exact (words_clear _).trans h.words_eq

theorem combination (h : Keeps registry bits set) (hmore : Keeps registry more other) (how : Combination) :
    Keeps registry (BitPlaces.combination how bits more) (NumberSet.combination how set other) := by
  cases how with
  | union =>
    refine ⟨h.registry_eq, fun id => ?_, ?_, ?_⟩
    · show (bits.union more).containsId id = true ↔ id ∈ set.members ∪ other.members
      rw [containsId_union, h.containsId_iff, hmore.containsId_iff, Finset.mem_union]
    · simp [NumberSet.combination, h.zero_notMem, hmore.zero_notMem]
    · show (bits.union more).words = max set.room other.room
      rw [words_union, h.words_eq, hmore.words_eq]
  | inter =>
    refine ⟨h.registry_eq, fun id => ?_, ?_, ?_⟩
    · show (bits.inter more).containsId id = true ↔ id ∈ set.members ∩ other.members
      rw [containsId_inter, h.containsId_iff, hmore.containsId_iff, Finset.mem_inter]
    · simp [NumberSet.combination, h.zero_notMem]
    · show (bits.inter more).words = set.room
      rw [words_inter, h.words_eq]
  | diff =>
    refine ⟨h.registry_eq, fun id => ?_, ?_, ?_⟩
    · show (bits.diff more).containsId id = true ↔ id ∈ set.members \ other.members
      rw [containsId_diff, h.containsId_iff, ← Bool.not_eq_true, hmore.containsId_iff, Finset.mem_sdiff]
    · simp [NumberSet.combination, h.zero_notMem]
    · show (bits.diff more).words = set.room
      rw [words_diff, h.words_eq]

theorem insertId_fst (h : Keeps registry bits set) (id : Nat) :
    (bits.insertId id).1 = decide (id ≠ 0 ∧ id ∉ set.members) := by
  rw [Bool.eq_iff_iff, BitSet.insertId_fst, ← Bool.not_eq_true, h.containsId_iff, decide_eq_true_iff]

theorem eraseId_fst (h : Keeps registry bits set) (id : Nat) :
    (bits.eraseId id).1 = decide (id ∈ set.members) := by
  rw [Bool.eq_iff_iff, BitSet.eraseId_fst, h.containsId_iff, decide_eq_true_iff]

theorem mem_ids_iff (h : Keeps registry bits set) {id : Nat} : id ∈ bits.ids ↔ id ∈ set.members := by
  rw [mem_ids, h.containsId_iff]

theorem size_eq_card (h : Keeps registry bits set) : bits.size = set.members.card := by
  have hmembers : bits.ids.toFinset = set.members := by
    ext id
    rw [List.mem_toFinset, h.mem_ids_iff]
  have hnodup : bits.ids.Nodup := bits.pairwise_ids.imp Nat.ne_of_lt
  rw [← hmembers, List.toFinset_card_of_nodup hnodup, length_ids]

theorem combine?_eq (h : Keeps registry bits set) (hmore : Keeps registry more other) {β : Type}
    (op : BitSet → BitSet → β) : bits.combine? op more = .ok (op bits more) := by
  rw [combine?, if_pos (h.registry_eq.trans hmore.registry_eq.symm)]

theorem overlaps_eq (h : Keeps registry bits set) (hmore : Keeps registry more other) :
    bits.overlaps more = decide (∃ id ∈ set.members, id ∈ other.members) := by
  rw [Bool.eq_iff_iff, overlaps_iff, decide_eq_true_iff]
  simp only [h.containsId_iff, hmore.containsId_iff]

theorem sameMembers_eq (h : Keeps registry bits set) (hmore : Keeps registry more other) :
    bits.sameMembers more = decide (set.members = other.members) := by
  rw [Bool.eq_iff_iff, sameMembers_iff (h.registry_eq.trans hmore.registry_eq.symm), decide_eq_true_iff,
    Finset.ext_iff]
  simp only [h.containsId_iff, hmore.containsId_iff]

end Keeps

end BitSet

/-! ### All sets -/

namespace NumberCall

open BitSet (Keeps)

variable {registry : Nat} {bits : Nat → BitSet} {sets : Nat → NumberSet}

theorem keeps_update (h : ∀ place, Keeps registry (bits place) (sets place)) (place : Nat) {set : BitSet}
    {numbers : NumberSet} (hset : Keeps registry set numbers) (other : Nat) :
    Keeps registry (Function.update bits place set other) (Function.update sets place numbers other) := by
  by_cases heq : other = place
  · subst heq
    simpa using hset
  · simpa [heq] using h other

/-- One call is answered as by sets of numbers, and the sets of bits have their members and words after it. -/
theorem onBits_keeps (h : ∀ place, Keeps registry (bits place) (sets place)) (call : NumberCall) :
    (call.onBits bits).1 = (call.onSets sets).1 ∧
      ∀ place, Keeps registry ((call.onBits bits).2 place) ((call.onSets sets).2 place) := by
  cases call with
  | add place id =>
    exact ⟨congrArg SetAnswer.truth ((h place).insertId_fst id), keeps_update h place ((h place).addId id)⟩
  | remove place id =>
    exact ⟨congrArg SetAnswer.truth ((h place).eraseId_fst id), keeps_update h place ((h place).removeId id)⟩
  | clear place => exact ⟨rfl, keeps_update h place (h place).clear⟩
  | combine how place other =>
    rw [onBits, (h place).combine?_eq (h other)]
    exact ⟨rfl, keeps_update h place ((h place).combination (h other) how)⟩

theorem bitsAfter_keeps (h : ∀ place, Keeps registry (bits place) (sets place)) (calls : List NumberCall) :
    ∀ place, Keeps registry (bitsAfter calls bits place) (setsAfter calls sets place) := by
  induction calls generalizing bits sets with
  | nil => exact h
  | cons call calls ih => exact ih (onBits_keeps h call).2

theorem room_le_onSets (sets : Nat → NumberSet) (call : NumberCall) (place : Nat) :
    (sets place).room ≤ ((call.onSets sets).2 place).room := by
  have hupdate : ∀ changed (set : NumberSet), (sets changed).room ≤ set.room →
      (sets place).room ≤ (Function.update sets changed set place).room := by
    intro changed set hle
    by_cases heq : place = changed
    · subst heq
      simpa using hle
    · simp [heq]
  cases call with
  | add changed id =>
    apply hupdate
    rw [NumberSet.insert]
    split
    · exact Nat.le_refl _
    · exact Nat.le_max_left _ _
  | remove changed id => exact hupdate _ _ (Nat.le_refl _)
  | clear changed => exact hupdate _ _ (Nat.le_refl _)
  | combine how changed other =>
    apply hupdate
    cases how with
    | union => exact Nat.le_max_left _ _
    | inter => exact Nat.le_refl _
    | diff => exact Nat.le_refl _

/-- Whatever is done to sets of bits over one registry, they answer as finite sets of positive numbers do, and have the
members and words of these. None ever has fewer words than before. -/
theorem bits_are_finite_sets (registry : Nat) (calls : List NumberCall) (call : NumberCall) :
    let bits := bitsAfter calls fun _ => .empty registry
    let sets := setsAfter calls fun _ => .empty
    (call.onBits bits).1 = (call.onSets sets).1 ∧
      (∀ place, (∀ id, (bits place).containsId id = true ↔ id ∈ (sets place).members) ∧
        0 ∉ (sets place).members ∧
        (bits place).ids.Pairwise (· < ·) ∧ (∀ id, id ∈ (bits place).ids ↔ id ∈ (sets place).members) ∧
        (bits place).size = (sets place).members.card ∧
        (bits place).words = (sets place).room ∧
        (bits place).words ≤ ((call.onBits bits).2 place).words) ∧
      ∀ left right,
        (bits left).combine? BitSet.overlaps (bits right) =
          .ok (decide (∃ id ∈ (sets left).members, id ∈ (sets right).members)) ∧
        (bits left).sameMembers (bits right) = decide ((sets left).members = (sets right).members) := by
  intro bits sets
  have hkeeps : ∀ place, Keeps registry (bits place) (sets place) :=
    bitsAfter_keeps (fun _ => .empty registry) calls
  obtain ⟨hanswer, hnext⟩ := onBits_keeps hkeeps call
  refine ⟨hanswer, fun place => ?_, fun left right => ⟨?_, ?_⟩⟩
  · have hgrows : (bits place).words ≤ ((call.onBits bits).2 place).words := by
      rw [(hkeeps place).words_eq, (hnext place).words_eq]
      exact room_le_onSets sets call place
    have h := hkeeps place
    exact ⟨h.containsId_iff, h.zero_notMem, (bits place).pairwise_ids, fun id => h.mem_ids_iff,
      h.size_eq_card, h.words_eq, hgrows⟩
  · rw [(hkeeps left).combine?_eq (hkeeps right), (hkeeps left).overlaps_eq (hkeeps right)]
  · exact (hkeeps left).sameMembers_eq (hkeeps right)

/-- Subtracting a set with fewer words leaves the words behind its end alone. -/
example : let bits := bitsAfter [.add 0 63, .add 0 130, .add 1 63, .combine .diff 0 1] fun _ => .empty 0
    (bits 0).ids = [130] ∧ (bits 0).words = 3 ∧ (bits 1).words = 1 := by decide +kernel

end NumberCall

end PegGrammar
