import Mathlib.Computability.StateTransition
import Mathlib.Data.List.Forall2
import PegGrammar.Sample.Shrink

/-!
# Shrinking comes to an end

To shrink a sample is to go from one that fails to a smaller one that fails, until there is none. Nothing is kept on
the way but the sample, so it is a machine whose only step is to look for the next one. Every step makes the sample
smaller, whatever the check; so the machine stops, and what holds of a sample and those it is replaced with holds
between the first and the last.
-/

namespace PegGrammar.Sample

open StateTransition

/-- A text that is a contiguous part of another. -/
def Piece (piece input : String) : Prop := piece.toList <:+: input.toList

instance : Std.Refl Piece := ⟨fun _ => List.infix_refl _⟩

instance : IsTrans String Piece := ⟨fun _ _ _ h h' => h.trans h'⟩

/-- Texts are pieces of some of the others, in the same order. -/
def Pieces (pieces inputs : List String) : Prop := List.SublistForall₂ Piece pieces inputs

theorem Pieces.refl (inputs : List String) : Pieces inputs inputs :=
  List.SublistForall₂.is_refl.refl inputs

theorem Pieces.trans {as bs cs : List String} (h : Pieces as bs) (h' : Pieces bs cs) : Pieces as cs :=
  List.SublistForall₂.is_trans.trans as bs cs h h'

/-! ### One step -/

/-- The first of the smaller samples that fails. -/
def next? (fails : Sample → Bool) (s : Sample) : Option Sample := s.smaller.find? fails

theorem eq_nil_or_piece_of_mem_smallerInput {input : String} {choice : List String}
    (h : choice ∈ smallerInput input) : choice = [] ∨ ∃ piece, Piece piece input ∧ choice = [piece] := by
  rw [smallerInput] at h
  split at h
  · exact .inl (List.mem_singleton.1 h)
  · rename_i c cs hinput
    simp only [List.mem_cons, List.not_mem_nil, or_false] at h
    rcases h with rfl | rfl | rfl
    · exact .inl rfl
    · refine .inr ⟨_, ?_, rfl⟩
      rw [Piece, hinput, String.toList_ofList]
      exact (List.dropLast_prefix _).isInfix
    · refine .inr ⟨_, ?_, rfl⟩
      rw [Piece, hinput, String.toList_ofList]
      exact (List.suffix_cons c cs).isInfix

theorem pieces_of_mem_edits {inputs edited : List String} (h : edited ∈ edits smallerInput inputs) :
    Pieces edited inputs := by
  induction inputs generalizing edited with
  | nil => cases h
  | cons input inputs ih =>
    rw [edits, List.mem_append, List.mem_map, List.mem_map] at h
    rcases h with ⟨choice, hchoice, rfl⟩ | ⟨rest, hrest, rfl⟩
    · rcases eq_nil_or_piece_of_mem_smallerInput hchoice with rfl | ⟨piece, hpiece, rfl⟩
      · exact .cons_right (Pieces.refl inputs)
      · exact .cons hpiece (Pieces.refl inputs)
    · exact .cons (List.infix_refl _) (ih hrest)

theorem pieces_of_mem_smaller {s t : Sample} (h : t ∈ s.smaller) : Pieces t.inputs s.inputs := by
  rw [smaller, List.mem_append, List.mem_map] at h
  rcases h with ⟨inputs, hinputs, rfl⟩ | h
  · exact pieces_of_mem_edits hinputs
  · split at h
    · obtain ⟨rules, -, rfl⟩ := List.mem_map.1 h
      exact .refl s.inputs
    · cases h
    · cases h

/-! ### All steps -/

variable {fails : Sample → Bool}

theorem shrink_eq (fails : Sample → Bool) (s : Sample) :
    s.shrink fails = ((next? fails s).map (shrink fails)).getD s := by
  rw [shrink, next?]
  split
  · rename_i t hnext
    simp [hnext]
  · rename_i hnone
    simp [hnone]

/-- To shrink is to take steps as long as there are any. -/
theorem shrink_mem_eval (fails : Sample → Bool) (s : Sample) : s.shrink fails ∈ eval (next? fails) s := by
  rw [mem_eval]
  induction s using shrink.induct fails with
  | case1 s t hnext _ ih =>
    have hstep : s.shrink fails = t.shrink fails := by
      rw [shrink_eq, next?, hnext]
      rfl
    rw [hstep]
    exact ⟨Relation.ReflTransGen.head hnext ih.1, ih.2⟩
  | case2 s hnone =>
    have hstop : s.shrink fails = s := by
      rw [shrink_eq, next?, hnone]
      rfl
    rw [hstop]
    exact ⟨.refl, hnone⟩

theorem fails_of_reaches {s t : Sample} (h : Reaches (next? fails) s t) (hs : fails s = true) : fails t = true := by
  induction h with
  | refl => exact hs
  | tail _ hstep _ => exact List.find?_some hstep

theorem pieces_of_reaches {s t : Sample} (h : Reaches (next? fails) s t) : Pieces t.inputs s.inputs := by
  induction h with
  | refl => exact .refl s.inputs
  | tail _ hstep ih => exact (pieces_of_mem_smaller (List.mem_of_find?_eq_some hstep)).trans ih

/-- Whatever the check, the smaller samples that are tried are smaller, so to shrink comes to an end: with a sample
that fails if the given one does, of which no smaller one fails, and with texts that are pieces of the given ones. -/
theorem shrink_ends_at_minimum (fails : Sample → Bool) (s : Sample) :
    (∀ t ∈ s.smaller, t.size < s.size) ∧
      s.shrink fails ∈ eval (fun t => t.smaller.find? fails) s ∧
      (fails s = true → fails (s.shrink fails) = true) ∧
      (∀ t ∈ (s.shrink fails).smaller, fails t = false) ∧
      List.SublistForall₂ (fun piece input => piece.toList <:+: input.toList) (s.shrink fails).inputs s.inputs := by
  have heval := shrink_mem_eval fails s
  obtain ⟨hreaches, hstop⟩ := mem_eval.1 heval
  refine ⟨fun t => size_lt_of_mem_smaller, heval, fails_of_reaches hreaches, fun t ht => ?_,
    pieces_of_reaches hreaches⟩
  simpa using List.find?_eq_none.1 hstop t ht

/-- A text and a definition that can be made smaller in seven ways. -/
example : smaller ⟨.map [("start", .list [.text "x", .text "y"])], ["ab"]⟩ =
    [⟨.map [("start", .list [.text "x", .text "y"])], []⟩,
      ⟨.map [("start", .list [.text "x", .text "y"])], ["a"]⟩,
      ⟨.map [("start", .list [.text "x", .text "y"])], ["b"]⟩,
      ⟨.map [("start", .text "x")], ["ab"]⟩,
      ⟨.map [("start", .text "y")], ["ab"]⟩,
      ⟨.map [("start", .list [.text "y"])], ["ab"]⟩,
      ⟨.map [("start", .list [.text "x"])], ["ab"]⟩] := by
  decide +kernel

/-- If a check fails because of one letter, that letter is all that is left of the texts. -/
example : shrink (fun s => s.inputs.any (fun input => input.toList.contains 'b'))
    ⟨.map [("start", .list [.text "x", .text "y"])], ["abc", "d"]⟩ = ⟨.map [("start", .text "x")], ["b"]⟩ := by
  decide +kernel

end PegGrammar.Sample
