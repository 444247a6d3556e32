/-!
# Sorted sets

A finite set as the list of its members in increasing order, each once.
-/

namespace PegGrammar

/-- A finite set of ordered values. -/
structure SortedSet (α : Type) [Ord α] where
  items : List α
  sorted : items.Pairwise (fun a b => compare a b = .lt)

namespace SortedSet

variable {α : Type} [Ord α] [Std.TransOrd α]

/-- Puts a value in its place, unless it is there. -/
def insertItem (a : α) : List α → List α
  | [] => [a]
  | b :: bs =>
    match compare a b with
    | .lt => a :: b :: bs
    | .eq => b :: bs
    | .gt => b :: insertItem a bs

omit [Std.TransOrd α] in
theorem lt_of_mem_insertItem {a b c : α} {bs : List α} (ha : compare c a = .lt)
    (h : ∀ x ∈ bs, compare c x = .lt) (hb : b ∈ insertItem a bs) : compare c b = .lt := by
  induction bs with
  | nil => simp only [insertItem, List.mem_singleton] at hb; exact hb ▸ ha
  | cons d ds ih =>
    simp only [insertItem] at hb
    split at hb
    · rcases List.mem_cons.1 hb with rfl | hb
      · exact ha
      · exact h b hb
    · exact h b hb
    · rcases List.mem_cons.1 hb with rfl | hb
      · exact h b (List.mem_cons_self)
      · exact ih (fun x hx => h x (List.mem_cons_of_mem _ hx)) hb

theorem pairwise_insertItem (a : α) {bs : List α}
    (h : bs.Pairwise (fun a b => compare a b = .lt)) :
    (insertItem a bs).Pairwise (fun a b => compare a b = .lt) := by
  induction bs with
  | nil => simp [insertItem]
  | cons b bs ih =>
    have ⟨hb, hbs⟩ := List.pairwise_cons.1 h
    simp only [insertItem]
    split
    · rename_i hab
      refine List.pairwise_cons.2 ⟨fun x hx => ?_, h⟩
      rcases List.mem_cons.1 hx with rfl | hx
      · exact hab
      · exact Std.TransCmp.lt_trans hab (hb x hx)
    · exact h
    · rename_i hab
      exact List.pairwise_cons.2
        ⟨fun x hx => lt_of_mem_insertItem (Std.OrientedCmp.lt_of_gt hab) hb hx, ih hbs⟩

def empty : SortedSet α := ⟨[], .nil⟩

def insert (s : SortedSet α) (a : α) : SortedSet α :=
  ⟨insertItem a s.items, pairwise_insertItem a s.sorted⟩

def single (a : α) : SortedSet α := empty.insert a

def ofList (as : List α) : SortedSet α := as.foldl insert empty

def union (s t : SortedSet α) : SortedSet α := t.items.foldl insert s

omit [Std.TransOrd α] in
def filter (s : SortedSet α) (keep : α → Bool) : SortedSet α :=
  ⟨s.items.filter keep, s.sorted.filter _⟩

variable [DecidableEq α]

omit [Std.TransOrd α]

def contains (s : SortedSet α) (a : α) : Bool := s.items.contains a

def erase (s : SortedSet α) (a : α) : SortedSet α := s.filter (fun b => b ≠ a)

def size (s : SortedSet α) : Nat := s.items.length

def isEmpty (s : SortedSet α) : Bool := s.items.isEmpty

def overlaps (s t : SortedSet α) : Bool := s.items.any t.contains

def inter (s t : SortedSet α) : SortedSet α := s.filter t.contains

/-- Members of the first set that are no members of the second. -/
def diff (s t : SortedSet α) : SortedSet α := s.filter (fun a => !t.contains a)

instance : DecidableEq (SortedSet α) := fun s t =>
  if h : s.items = t.items then isTrue (by cases s; cases t; cases h; rfl)
  else isFalse (fun e => h (e ▸ rfl))

end SortedSet

end PegGrammar
