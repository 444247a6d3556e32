import PegGrammar.Finite.SortedSet

/-!
# Members of sorted sets

What the operations on a sorted set do to its members. The order matters here only in that values with the
same place in it are equal.
-/

namespace PegGrammar.SortedSet

variable {α : Type} [Ord α] [Std.TransOrd α] [Std.LawfulEqOrd α]

omit [Std.TransOrd α] in
theorem mem_insertItem {a b : α} {bs : List α} : b ∈ insertItem a bs ↔ b = a ∨ b ∈ bs := by
  induction bs with
  | nil => rw [insertItem, List.mem_singleton, or_iff_left List.not_mem_nil]
  | cons c cs ih =>
    rw [insertItem]
    split
    · exact List.mem_cons
    · rename_i heq
      have hac : a = c := Std.LawfulEqOrd.eq_of_compare heq
      rw [hac, List.mem_cons, or_self_left]
    · rw [List.mem_cons, ih, List.mem_cons]
      exact or_left_comm

@[simp] theorem mem_insert {s : SortedSet α} {a b : α} :
    b ∈ (s.insert a).items ↔ b = a ∨ b ∈ s.items :=
  mem_insertItem

@[simp] theorem mem_single {a b : α} : b ∈ (single a).items ↔ b = a := by
  rw [single, mem_insert, or_iff_left]
  exact List.not_mem_nil

private theorem mem_foldl_insert {as : List α} {s : SortedSet α} {b : α} :
    b ∈ (as.foldl insert s).items ↔ b ∈ s.items ∨ b ∈ as := by
  induction as generalizing s with
  | nil => rw [List.foldl_nil, or_iff_left List.not_mem_nil]
  | cons a as ih => rw [List.foldl_cons, ih, mem_insert, List.mem_cons, or_assoc, or_left_comm]

@[simp] theorem mem_union {s t : SortedSet α} {b : α} :
    b ∈ (s.union t).items ↔ b ∈ s.items ∨ b ∈ t.items :=
  mem_foldl_insert

omit [Std.LawfulEqOrd α] in
theorem nodup_items (s : SortedSet α) : s.items.Nodup := by
  refine s.sorted.imp fun {a b} hlt heq => ?_
  have hself : compare b b = .eq := Std.ReflCmp.compare_self
  rw [heq, hself] at hlt
  cases hlt

omit [Std.TransOrd α] [Std.LawfulEqOrd α] in
theorem isEmpty_iff {s : SortedSet α} : s.isEmpty = true ↔ ∀ a, a ∉ s.items := by
  rw [isEmpty, List.isEmpty_iff, List.eq_nil_iff_forall_not_mem]

variable [DecidableEq α]

omit [Std.TransOrd α] [Std.LawfulEqOrd α]

@[simp] theorem mem_erase {s : SortedSet α} {a b : α} :
    b ∈ (s.erase a).items ↔ b ∈ s.items ∧ b ≠ a := by
  rw [erase, filter, List.mem_filter, decide_eq_true_iff]

theorem contains_iff {s : SortedSet α} {a : α} : s.contains a = true ↔ a ∈ s.items := by
  rw [contains, List.contains_iff_mem]

@[simp] theorem mem_inter {s t : SortedSet α} {a : α} :
    a ∈ (s.inter t).items ↔ a ∈ s.items ∧ a ∈ t.items := by
  simp [inter, filter, contains]

@[simp] theorem mem_diff {s t : SortedSet α} {a : α} :
    a ∈ (s.diff t).items ↔ a ∈ s.items ∧ a ∉ t.items := by
  simp [diff, filter, contains]

theorem overlaps_iff {s t : SortedSet α} :
    s.overlaps t = true ↔ ∃ a, a ∈ s.items ∧ a ∈ t.items := by
  simp [overlaps, contains]

end PegGrammar.SortedSet
