import PegGrammar.Finite.SortedSet

/-!
# Leads

What a match of a rule can start with: a literal, nothing at all, or something that is not known.
Only a set that consists of literals can be used to rule a match out.
-/

namespace PegGrammar

/-- One thing that a match can start with. -/
inductive Lead where
  /-- The match may be empty, so what follows it matters too. -/
  | nothing
  /-- The match may start with anything. -/
  | anything
  | literal (text : String)
  deriving DecidableEq, Repr

namespace Lead

private def rank : Lead → Nat
  | .nothing => 0
  | .anything => 1
  | .literal _ => 2

private def text : Lead → String
  | .literal s => s
  | _ => ""

/-- Literals come last, in the order of their bytes. -/
instance : Ord Lead := ⟨compareLex (compareOn rank) (compareOn text)⟩

instance : Std.TransOrd Lead :=
  inferInstanceAs (Std.TransCmp (compareLex (compareOn rank) (compareOn text)))

/-- Only equal leads have the same place in the order. -/
instance : Std.LawfulEqOrd Lead where
  eq_of_compare := by
    intro a b h
    change (compareOn rank a b).then (compareOn text a b) = .eq at h
    obtain ⟨hrank, htext⟩ := Ordering.then_eq_eq.1 h
    have hrank : a.rank = b.rank := Std.LawfulEqOrd.eq_of_compare hrank
    have htext : a.text = b.text := Std.LawfulEqOrd.eq_of_compare htext
    cases a <;> cases b <;> simp_all [rank, text]

def literal? : Lead → Option String
  | .literal s => some s
  | _ => none

end Lead

abbrev FirstSet := SortedSet Lead

namespace FirstSet

def nothing : FirstSet := .single .nothing

def anything : FirstSet := .single .anything

def literal (text : String) : FirstSet := .single (.literal text)

/-- The literals of a set, in the order of their bytes. -/
def literals (s : FirstSet) : List String := s.items.filterMap Lead.literal?

/-- Whether a set can rule a match out: it has members, and all are literals. -/
def isPrunable (s : FirstSet) : Bool :=
  !s.isEmpty && !s.contains .nothing && !s.contains .anything

end FirstSet

end PegGrammar
