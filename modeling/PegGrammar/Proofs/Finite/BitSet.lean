import Mathlib
import PegGrammar.Finite.BitSet

/-!
# Members of bit sets

What the operations do to the members, number by number: adding a number adds that member and no other,
except that zero is never one, and sets are combined member by member. Sets that share a member overlap.

All of this is read off the words. A word that is missing counts as one without bits, and every operation treats it
so, whichever of its operands is the shorter one: what an operation makes of the word in some place is what it makes
of the two words in that place. A member is a bit of its word, so it remains to look at single bits.
-/

namespace PegGrammar.BitSet

/-! ### Words -/

/-- The word in a place, without bits if it is missing. -/
def wordAt (s : BitSet) (index : Nat) : UInt64 := s.store.getD index 0

theorem place_lt (id : Nat) : id % wordBits < 64 := Nat.mod_lt id (by decide)

theorem toBitVec_mask (id : Nat) : (mask id).toBitVec = BitVec.twoPow 64 (id % wordBits) := by
  have hshift : ((UInt64.ofNat (id % wordBits)).toBitVec % 64).toNat = id % wordBits := by
    simp [wordBits]
  rw [mask, UInt64.toBitVec_shiftLeft, BitVec.shiftLeft_eq', hshift, BitVec.twoPow_eq]
  rfl

theorem and_mask_ne_zero_iff {word : UInt64} {id : Nat} :
    word &&& mask id ≠ 0 ↔ word.toBitVec.getLsbD (id % wordBits) = true := by
  have hpower : BitVec.twoPow 64 (id % wordBits) ≠ 0#64 := by
    intro hzero
    have hbit := congrArg (BitVec.getLsbD · (id % wordBits)) hzero
    simp [place_lt] at hbit
  rw [ne_eq, ← UInt64.toBitVec_inj, UInt64.toBitVec_and, toBitVec_mask, BitVec.and_twoPow]
  split <;> simp_all

theorem containsId_eq (s : BitSet) (id : Nat) :
    s.containsId id = (s.wordAt (id / wordBits)).toBitVec.getLsbD (id % wordBits) := by
  rw [Bool.eq_iff_iff, ← and_mask_ne_zero_iff, containsId, wordAt, List.getD_eq_getElem?_getD]
  cases s.store[id / wordBits]? <;> simp

theorem getD_rightpad (words : List UInt64) (n index : Nat) :
    (words.rightpad n 0).getD index 0 = words.getD index 0 := by
  simp only [List.rightpad, List.getD_eq_getElem?_getD, List.getElem?_append, List.getElem?_replicate]
  split
  · rfl
  · rename_i hlength
    rw [List.getElem?_eq_none (Nat.not_lt.1 hlength)]
    split <;> rfl

theorem length_overlay (change : UInt64 → UInt64 → UInt64) (as bs : List UInt64) :
    (overlay change as bs).length = as.length := by
  simp only [overlay, List.length_append, List.length_zipWith, List.length_drop]
  omega

theorem getD_overlay {change : UInt64 → UInt64 → UInt64} {as bs : List UInt64} {index : Nat}
    (hbs : ∀ a, change a 0 = a) (has : as.length ≤ index → change 0 (bs.getD index 0) = 0) :
    (overlay change as bs).getD index 0 = change (as.getD index 0) (bs.getD index 0) := by
  by_cases hindex : index < as.length
  · have hlength : (List.zipWith change as bs).length = min as.length bs.length := List.length_zipWith
    rw [overlay, List.getD_eq_getElem?_getD, List.getElem?_append, hlength]
    by_cases hboth : index < bs.length
    · simp [hindex, hboth]
    · have hdrop : bs.length + (index - min as.length bs.length) = index := by omega
      simp [hindex, hboth, hdrop, hbs]
  · have hnone : as.length ≤ index := Nat.not_lt.1 hindex
    have hbehind : (overlay change as bs).length ≤ index := by rwa [length_overlay]
    rw [List.getD_eq_default _ _ hbehind, List.getD_eq_default _ _ hnone, has hnone]

theorem wordAt_addId {s : BitSet} {id : Nat} (hid : id ≠ 0) (index : Nat) :
    (s.addId id).wordAt index =
      if index = id / wordBits then s.wordAt index ||| mask id else s.wordAt index := by
  have hlength : id / wordBits < (s.store.rightpad (id / wordBits + 1) 0).length := by
    rw [List.length_rightpad]
    omega
  rw [addId, insertId, if_neg hid]
  dsimp only [wordAt]
  rw [getD_rightpad, List.getD_eq_getElem?_getD, List.getElem?_set]
  by_cases hindex : index = id / wordBits
  · subst hindex
    rw [if_pos rfl, if_pos hlength, if_pos rfl]
    rfl
  · rw [if_neg (Ne.symm hindex), if_neg hindex, ← List.getD_eq_getElem?_getD, getD_rightpad]

theorem wordAt_removeId (s : BitSet) (id index : Nat) :
    (s.removeId id).wordAt index =
      if index = id / wordBits then s.wordAt index &&& ~~~mask id else s.wordAt index := by
  have hcleared : ∀ word : UInt64, word &&& mask id = 0 → word &&& ~~~mask id = word := by
    intro word hword
    apply UInt64.toBitVec_inj.1
    apply BitVec.eq_of_getLsbD_eq
    intro place hplace
    have hbit := congrArg (fun word => word.toBitVec.getLsbD place) hword
    simp only [UInt64.toBitVec_and, BitVec.getLsbD_and, UInt64.toBitVec_not, BitVec.getLsbD_not, hplace,
      decide_true, Bool.true_and] at hbit ⊢
    revert hbit
    cases word.toBitVec.getLsbD place <;> simp
  rw [removeId, eraseId]
  split
  · rename_i word hword
    have hat : s.wordAt (id / wordBits) = word := by
      rw [wordAt, List.getD_eq_getElem?_getD, hword]
      rfl
    have hlength := (List.getElem?_eq_some_iff.1 hword).1
    by_cases hindex : index = id / wordBits
    · rw [if_pos hindex, hindex, hat]
      split
      · simp [wordAt, hlength]
      · rename_i hzero
        rw [hat, hcleared word (not_not.1 hzero)]
    · rw [if_neg hindex]
      split
      · simp [wordAt, Ne.symm hindex]
      · rfl
  · rename_i hnone
    have hmissing : s.wordAt (id / wordBits) = 0 := by
      rw [wordAt, List.getD_eq_getElem?_getD, hnone]
      rfl
    split
    · rename_i hindex
      rw [hindex, hmissing, UInt64.zero_and]
    · rfl

@[simp] theorem wordAt_clear (s : BitSet) (index : Nat) : s.clear.wordAt index = 0 := by
  simp only [wordAt, clear, List.getD_eq_getElem?_getD, List.getElem?_map]
  cases s.store[index]? <;> rfl

@[simp] theorem wordAt_union (s t : BitSet) (index : Nat) :
    (s.union t).wordAt index = s.wordAt index ||| t.wordAt index := by
  dsimp only [union, wordAt]
  rw [getD_overlay, getD_rightpad]
  · simp
  · intro hpadded
    rw [List.length_rightpad, words] at hpadded
    rw [List.getD_eq_default _ _ (by omega)]
    simp

@[simp] theorem wordAt_inter (s t : BitSet) (index : Nat) :
    (s.inter t).wordAt index = s.wordAt index &&& t.wordAt index := by
  dsimp only [inter, wordAt]
  rw [← getD_rightpad t.store s.words index]
  simp only [List.getD_eq_getElem?_getD, List.getElem?_zipWith]
  cases hs : s.store[index]? with
  | none => simp
  | some a =>
    have hindex := (List.getElem?_eq_some_iff.1 hs).1
    have hpadded : index < (t.store.rightpad s.words 0).length := by
      rw [List.length_rightpad, words]
      omega
    rw [List.getElem?_eq_getElem hpadded]
    rfl

@[simp] theorem wordAt_diff (s t : BitSet) (index : Nat) :
    (s.diff t).wordAt index = s.wordAt index &&& ~~~t.wordAt index := by
  dsimp only [diff, wordAt]
  rw [getD_overlay]
  · simp
  · simp

/-! ### Members -/

theorem getLsbD_mask (id other : Nat) :
    (mask id).toBitVec.getLsbD (other % wordBits) = decide (id % wordBits = other % wordBits) := by
  rw [toBitVec_mask, BitVec.getLsbD_twoPow]
  simp [place_lt]

theorem eq_iff_parts (id other : Nat) :
    other = id ↔ other / wordBits = id / wordBits ∧ id % wordBits = other % wordBits := by
  dsimp only [wordBits]
  omega

theorem word_of_parts {index place : Nat} (h : place < wordBits) :
    (index * wordBits + place) / wordBits = index := by
  dsimp only [wordBits] at h ⊢
  omega

theorem place_of_parts {index place : Nat} (h : place < wordBits) :
    (index * wordBits + place) % wordBits = place := by
  dsimp only [wordBits] at h ⊢
  omega

theorem containsId_addId {s : BitSet} {id : Nat} (other : Nat) :
    (s.addId id).containsId other = true ↔ s.containsId other = true ∨ (other = id ∧ id ≠ 0) := by
  by_cases hid : id = 0
  · simp [addId, insertId, hid]
  · rw [containsId_eq, containsId_eq, wordAt_addId hid, and_iff_left hid, eq_iff_parts id other]
    split
    · rename_i hindex
      simp [getLsbD_mask, hindex]
    · rename_i hindex
      simp [hindex]

theorem containsId_removeId {s : BitSet} {id : Nat} (other : Nat) :
    (s.removeId id).containsId other = true ↔ s.containsId other = true ∧ other ≠ id := by
  rw [containsId_eq, containsId_eq, wordAt_removeId, ne_eq,
    eq_iff_parts id other]
  split
  · rename_i hindex
    simp only [UInt64.toBitVec_and, UInt64.toBitVec_not, BitVec.getLsbD_and, BitVec.getLsbD_not, getLsbD_mask]
    simp [hindex, place_lt]
  · rename_i hindex
    simp [hindex]

theorem containsId_empty (registry id : Nat) : (empty registry).containsId id = false := rfl

theorem containsId_clear (s : BitSet) (id : Nat) : s.clear.containsId id = false := by
  rw [containsId_eq, wordAt_clear]
  simp

theorem containsId_union {s t : BitSet} {id : Nat} :
    (s.union t).containsId id = true ↔ s.containsId id = true ∨ t.containsId id = true := by
  simp [containsId_eq]

theorem containsId_inter {s t : BitSet} {id : Nat} :
    (s.inter t).containsId id = true ↔ s.containsId id = true ∧ t.containsId id = true := by
  simp [containsId_eq]

theorem containsId_diff {s t : BitSet} {id : Nat} :
    (s.diff t).containsId id = true ↔ s.containsId id = true ∧ t.containsId id = false := by
  simp [containsId_eq, place_lt]

/-- Whether a number was added is whether it has become a member. -/
theorem insertId_fst (s : BitSet) (id : Nat) :
    (s.insertId id).1 = true ↔ id ≠ 0 ∧ s.containsId id = false := by
  rw [insertId]
  split
  · rename_i hid
    simp [hid]
  · rename_i hid
    dsimp only
    rw [getD_rightpad, decide_eq_true_iff, and_iff_right hid, containsId_eq, ← Bool.not_eq_true,
      ← and_mask_ne_zero_iff, not_not]
    rfl

theorem eraseId_fst (s : BitSet) (id : Nat) : (s.eraseId id).1 = s.containsId id := by
  rw [eraseId, containsId]
  split
  · rename_i word hword
    rw [hword]
    split <;> simp_all
  · rename_i hnone
    rw [hnone]
    rfl

@[simp] theorem registry_addId (s : BitSet) (id : Nat) : (s.addId id).registry = s.registry := by
  rw [addId, insertId]
  split <;> rfl

@[simp] theorem registry_removeId (s : BitSet) (id : Nat) : (s.removeId id).registry = s.registry := by
  rw [removeId, eraseId]
  split
  · split <;> rfl
  · rfl

/-! ### Listing the members -/

theorem mem_places {word : UInt64} {place : Nat} :
    place ∈ places word ↔ place < wordBits ∧ word.toBitVec.getLsbD place = true := by
  rw [places, List.mem_filter, List.mem_range, decide_eq_true_iff, and_mask_ne_zero_iff]
  refine and_congr_right fun hplace => ?_
  rw [Nat.mod_eq_of_lt hplace]

theorem mem_ids {s : BitSet} {id : Nat} : id ∈ s.ids ↔ s.containsId id = true := by
  have hword : ∀ index word, s.store[index]? = some word → s.wordAt index = word := by
    intro index word h
    rw [wordAt, List.getD_eq_getElem?_getD, h]
    rfl
  simp only [ids, List.mem_flatMap, List.mem_map, Prod.exists, List.mem_zipIdx_iff_getElem?, mem_places,
    containsId_eq]
  constructor
  · rintro ⟨word, index, hstore, place, ⟨hplace, hbit⟩, rfl⟩
    rw [word_of_parts hplace, place_of_parts hplace, hword index word hstore]
    exact hbit
  · intro hbit
    cases hstore : s.store[id / wordBits]? with
    | none =>
      rw [wordAt, List.getD_eq_getElem?_getD, hstore] at hbit
      simp at hbit
    | some word =>
      rw [hword _ _ hstore] at hbit
      exact ⟨word, id / wordBits, hstore, id % wordBits, ⟨place_lt id, hbit⟩, Nat.div_add_mod' id wordBits⟩

theorem pairwise_ids (s : BitSet) : s.ids.Pairwise (· < ·) := by
  rw [ids, List.pairwise_flatMap]
  constructor
  · intro entry _
    refine (List.pairwise_lt_range.filter _).map _ fun a b hlt => ?_
    exact Nat.add_lt_add_left hlt _
  · have hordered : s.store.zipIdx.Pairwise (fun a b => a.2 < b.2) := by
      rw [← List.pairwise_map, List.zipIdx_map_snd]
      exact List.pairwise_lt_range'
    refine hordered.imp fun {a b} hlt x hx y hy => ?_
    obtain ⟨low, hlow, rfl⟩ := List.mem_map.1 hx
    obtain ⟨high, -, rfl⟩ := List.mem_map.1 hy
    have hplace := (mem_places.1 hlow).1
    dsimp only [wordBits] at hplace ⊢
    omega

theorem length_places (word : UInt64) : (places word).length = word.toBitVec.cpop.toNat := by
  have hcount : ∀ n ≤ 64, ((List.range n).filter fun place => word &&& mask place ≠ 0).length =
      word.toBitVec.cpopNatRec n 0 := by
    intro n hn
    induction n with
    | zero => rfl
    | succ n ih =>
      have hbit : word &&& mask n ≠ 0 ↔ word.toBitVec.getLsbD (n % wordBits) = true := and_mask_ne_zero_iff
      rw [show n % wordBits = n from Nat.mod_eq_of_lt hn] at hbit
      rw [BitVec.cpopNatRec_succ, BitVec.cpopNatRec_eq, ← ih (Nat.le_of_succ_le hn), List.range_succ,
        List.filter_append, List.length_append]
      simp only [List.filter_cons, List.filter_nil, hbit]
      cases word.toBitVec.getLsbD n <;> simp
  rw [BitVec.toNat_cpop]
  exact hcount 64 (Nat.le_refl 64)

theorem length_ids (s : BitSet) : s.ids.length = s.size := by
  have hwords : s.store = s.store.zipIdx.map Prod.fst := by simp
  rw [ids, size, ← List.foldr_map, ← List.sum_eq_foldr, List.length_flatMap]
  conv => rhs; rw [hwords, List.map_map]
  simp [length_places, Function.comp_def]

theorem isEmpty_iff {s : BitSet} : s.isEmpty = true ↔ ∀ id, s.containsId id = false := by
  rw [isEmpty, decide_eq_true_iff, ← length_ids, List.length_eq_zero_iff, List.eq_nil_iff_forall_not_mem]
  simp [mem_ids]

/-! ### Sharing a member -/

theorem ne_zero_iff {word : UInt64} :
    word ≠ 0 ↔ ∃ place < wordBits, word.toBitVec.getLsbD place = true := by
  constructor
  · intro hword
    by_contra hnone
    push Not at hnone
    apply hword
    apply UInt64.toBitVec_inj.1
    apply BitVec.eq_of_getLsbD_eq
    intro place hplace
    simpa using hnone place hplace
  · rintro ⟨place, -, hbit⟩ rfl
    simp at hbit

/-- Two sets overlap in a word that both have. -/
theorem overlaps_iff_wordAt {s t : BitSet} :
    s.overlaps t = true ↔ ∃ index, s.wordAt index &&& t.wordAt index ≠ 0 := by
  simp only [overlaps, List.any_eq_true, Prod.exists, decide_eq_true_iff, wordAt, List.getD_eq_getElem?_getD]
  constructor
  · rintro ⟨a, b, hmem, hshared⟩
    obtain ⟨index, hindex⟩ := List.mem_iff_getElem?.1 hmem
    obtain ⟨ha, hb⟩ := List.getElem?_zip_eq_some.1 hindex
    refine ⟨index, ?_⟩
    rw [ha, hb]
    exact hshared
  · rintro ⟨index, hshared⟩
    cases ha : s.store[index]? with
    | none => simp [ha] at hshared
    | some a =>
      cases hb : t.store[index]? with
      | none => simp [hb] at hshared
      | some b =>
        rw [ha, hb] at hshared
        exact ⟨a, b, List.mem_iff_getElem?.2 ⟨index, List.getElem?_zip_eq_some.2 ⟨ha, hb⟩⟩, hshared⟩

theorem overlaps_iff {s t : BitSet} :
    s.overlaps t = true ↔ ∃ id, s.containsId id = true ∧ t.containsId id = true := by
  simp only [overlaps_iff_wordAt, ne_zero_iff, containsId_eq, UInt64.toBitVec_and, BitVec.getLsbD_and,
    Bool.and_eq_true]
  constructor
  · rintro ⟨index, place, hplace, hs, ht⟩
    refine ⟨index * wordBits + place, ?_⟩
    rw [word_of_parts hplace, place_of_parts hplace]
    exact ⟨hs, ht⟩
  · rintro ⟨id, hs, ht⟩
    exact ⟨id / wordBits, id % wordBits, place_lt id, hs, ht⟩

theorem overlaps_of_containsId {s t : BitSet} {id : Nat} (hs : s.containsId id = true)
    (ht : t.containsId id = true) : s.overlaps t = true :=
  overlaps_iff.2 ⟨id, hs, ht⟩

/-- Sets over one registry are the same if they have the same members, however many words they have. -/
theorem sameMembers_iff {s t : BitSet} (h : s.registry = t.registry) :
    s.sameMembers t = true ↔ ∀ id, s.containsId id = true ↔ t.containsId id = true := by
  rw [sameMembers, decide_eq_true_iff, and_iff_right h]
  constructor
  · intro hids id
    rw [← mem_ids, ← mem_ids, hids]
  · intro hmembers
    refine List.Perm.eq_of_pairwise (fun a b _ _ hab hba => (Nat.lt_asymm hab hba).elim) (pairwise_ids s)
      (pairwise_ids t) ?_
    refine (List.perm_ext_iff_of_nodup ?_ ?_).2 fun id => ?_
    · exact (pairwise_ids s).imp Nat.ne_of_lt
    · exact (pairwise_ids t).imp Nat.ne_of_lt
    · rw [mem_ids, mem_ids, hmembers]

/-! ### Room -/

theorem words_addId {s : BitSet} {id : Nat} (hid : id ≠ 0) :
    (s.addId id).words = max s.words (id / wordBits + 1) := by
  rw [addId, insertId, if_neg hid]
  dsimp only [words]
  rw [List.length_set, List.length_rightpad, Nat.max_comm]

@[simp] theorem words_removeId (s : BitSet) (id : Nat) : (s.removeId id).words = s.words := by
  rw [removeId, eraseId]
  split
  · split
    · exact List.length_set
    · rfl
  · rfl

@[simp] theorem words_clear (s : BitSet) : s.clear.words = s.words := List.length_map _

@[simp] theorem words_union (s t : BitSet) : (s.union t).words = max s.words t.words := by
  rw [words, union, length_overlay, List.length_rightpad, Nat.max_comm]
  rfl

@[simp] theorem words_inter (s t : BitSet) : (s.inter t).words = s.words := by
  rw [words, inter, List.length_zipWith, List.length_rightpad]
  exact Nat.min_eq_left (Nat.le_max_left _ _)

@[simp] theorem words_diff (s t : BitSet) : (s.diff t).words = s.words := length_overlay _ _ _

end PegGrammar.BitSet
