import PegGrammar.Rule.Keyword
import PegGrammar.Sample.Basic

/-!
# Shrinking samples

A sample that fails a check is replaced by a smaller one that fails too, as long as there is one. The
smaller samples lack a text, or the last or first character of a text, or have one rule in which some
part is replaced by a piece of itself. Each is smaller by a count of texts, characters and nodes of
the grammar, so this comes to an end.
-/

namespace PegGrammar

/-! ### Smaller lists -/

/-- Every list that comes of replacing one item by one of the lists that it can be replaced with. -/
def edits {α : Type} (choices : α → List (List α)) : List α → List (List α)
  | [] => []
  | item :: items =>
    (choices item).map (· ++ items) ++ (edits choices items).map (item :: ·)

/-- The weights of all items, together. -/
def total {α : Type} (weight : α → Nat) (items : List α) : Nat :=
  items.foldr (fun item n => weight item + n) 0

@[simp] theorem total_singleton {α : Type} (weight : α → Nat) (item : α) : total weight [item] = weight item := rfl

theorem total_cons {α : Type} (weight : α → Nat) (item : α) (items : List α) :
    total weight (item :: items) = weight item + total weight items := rfl

theorem total_append {α : Type} (weight : α → Nat) (items more : List α) :
    total weight (items ++ more) = total weight items + total weight more := by
  induction items with
  | nil => exact (Nat.zero_add _).symm
  | cons item items ih => rw [List.cons_append, total_cons, total_cons, ih, Nat.add_assoc]

/-- If every item can only be replaced with less, a list is only ever replaced with less. -/
theorem total_lt_of_mem_edits {α : Type} {choices : α → List (List α)} (weight : α → Nat)
    (hchoices : ∀ item, ∀ choice ∈ choices item, total weight choice < weight item) :
    {items edited : List α} → edited ∈ edits choices items → total weight edited < total weight items
  | item :: items, edited, h => by
    rw [edits, List.mem_append, List.mem_map, List.mem_map] at h
    rw [total_cons]
    rcases h with ⟨choice, hchoice, rfl⟩ | ⟨rest, hrest, rfl⟩
    · have hless := hchoices item choice hchoice
      rw [total_append]
      omega
    · have hless := total_lt_of_mem_edits weight hchoices hrest
      rw [total_cons]
      omega

/-! ### Smaller rules -/

namespace Rule

mutual

/-- How many texts, lists and maps a rule is made of. -/
def nodes : Rule → Nat
  | .text _ => 1
  | .list items => 1 + nodesOfItems items
  | .map entries => 1 + nodesOfEntries entries

def nodesOfItems : List Rule → Nat
  | [] => 0
  | item :: items => nodes item + nodesOfItems items

def nodesOfEntries : List (String × Rule) → Nat
  | [] => 0
  | (_, value) :: entries => nodes value + nodesOfEntries entries

end

mutual

/-- Rules in which some part is replaced by a piece of itself: a list by one of its items or by the
list without one of them, and a combinator by the rule that it applies to. -/
def smaller : Rule → List Rule
  | .text _ => []
  | .list items =>
    items ++ (edits (fun _ => [[]]) items).map .list ++ (smallerItems items).map .list
  | .map [(key, value)] =>
    if key = Keyword.literal.key ∨ key = Keyword.regex.key then []
    else value :: (smaller value).map (combinator key)
  | .map _ => []

/-- Every list in which one rule is replaced by a smaller one. -/
def smallerItems : List Rule → List (List Rule)
  | [] => []
  | item :: items =>
    (smaller item).map (· :: items) ++ (smallerItems items).map (item :: ·)

end

theorem nodes_pos (r : Rule) : 0 < r.nodes := by
  cases r <;> rw [nodes] <;> omega

theorem nodesOfItems_eq_total (items : List Rule) : nodesOfItems items = total nodes items := by
  induction items with
  | nil => rfl
  | cons item items ih => rw [nodesOfItems, ih, total_cons]

theorem nodesOfEntries_eq_total (entries : List (String × Rule)) :
    nodesOfEntries entries = total (fun entry => entry.2.nodes) entries := by
  induction entries with
  | nil => rfl
  | cons entry entries ih => rw [nodesOfEntries, ih, total_cons]

theorem nodes_le_nodesOfItems {item : Rule} {items : List Rule} (h : item ∈ items) :
    item.nodes ≤ nodesOfItems items := by
  induction h with
  | head => exact Nat.le_add_right _ _
  | tail _ _ ih => exact Nat.le_trans ih (Nat.le_add_left _ _)

mutual

theorem nodes_lt_of_mem_smaller : {r t : Rule} → t ∈ r.smaller → t.nodes < r.nodes
  | .text _, _, h => by
    rw [smaller] at h
    cases h
  | .list items, t, h => by
    rw [smaller, List.mem_append, List.mem_append, List.mem_map, List.mem_map] at h
    rcases h with (h | ⟨rest, hrest, rfl⟩) | ⟨rest, hrest, rfl⟩
    · have hle := nodes_le_nodesOfItems h
      rw [nodes]
      omega
    · have hchoices : ∀ item : Rule, ∀ choice ∈ [[]], total nodes choice < item.nodes := by
        intro item choice hchoice
        rw [List.mem_singleton.1 hchoice]
        exact item.nodes_pos
      have hless := total_lt_of_mem_edits nodes hchoices hrest
      rw [nodes, nodes, nodesOfItems_eq_total, nodesOfItems_eq_total]
      omega
    · have hless := nodesOfItems_lt_of_mem_smallerItems hrest
      rw [nodes, nodes]
      omega
  | .map [], _, h => by
    rw [smaller] at h
    · cases h
    · simp
  | .map [(key, value)], t, h => by
    have hnodes : nodes (.map [(key, value)]) = 1 + value.nodes := rfl
    rw [smaller] at h
    split at h
    · cases h
    rcases List.mem_cons.1 h with rfl | h
    · omega
    · obtain ⟨less, hless, rfl⟩ := List.mem_map.1 h
      have hlt := nodes_lt_of_mem_smaller hless
      have hcombinator : nodes (combinator key less) = 1 + less.nodes := rfl
      omega
  | .map (_ :: _ :: _), _, h => by
    rw [smaller] at h
    · cases h
    · simp

theorem nodesOfItems_lt_of_mem_smallerItems :
    {items edited : List Rule} → edited ∈ smallerItems items → nodesOfItems edited < nodesOfItems items
  | [], _, h => by
    rw [smallerItems] at h
    cases h
  | item :: items, edited, h => by
    rw [smallerItems, List.mem_append, List.mem_map, List.mem_map] at h
    rcases h with ⟨less, hless, rfl⟩ | ⟨rest, hrest, rfl⟩
    · have hlt := nodes_lt_of_mem_smaller hless
      rw [nodesOfItems, nodesOfItems]
      omega
    · have hlt := nodesOfItems_lt_of_mem_smallerItems hrest
      rw [nodesOfItems, nodesOfItems]
      omega

end

end Rule

/-! ### Smaller samples -/

namespace Sample

/-- What a text can be replaced with: nothing, the text without its last character, or the text
without its first. -/
def smallerInput (input : String) : List (List String) :=
  match input.toList with
  | [] => [[]]
  | c :: cs => [[], [String.ofList (c :: cs).dropLast], [String.ofList cs]]

def smaller (s : Sample) : List Sample :=
  (edits smallerInput s.inputs).map (fun inputs => { s with inputs })
    ++ match s.grammar with
      | .map rules =>
        (edits (fun (name, rule) => rule.smaller.map (fun r => [(name, r)])) rules).map
          (fun rules => { s with grammar := .map rules })
      | .text _ | .list _ => []

/-- The texts, their characters and the nodes of the grammar, counted together. -/
def size (s : Sample) : Nat :=
  s.inputs.length + total String.length s.inputs + s.grammar.nodes

theorem total_succ_length (inputs : List String) :
    total (fun input => 1 + input.length) inputs = inputs.length + total String.length inputs := by
  induction inputs with
  | nil => rfl
  | cons input inputs ih =>
    rw [total_cons, total_cons, ih, List.length_cons]
    omega

theorem total_lt_of_mem_smallerInput (input : String) :
    ∀ choice ∈ smallerInput input, total (fun piece => 1 + piece.length) choice < 1 + input.length := by
  intro choice hchoice
  rw [smallerInput] at hchoice
  rw [← String.length_toList]
  split at hchoice
  · rw [List.mem_singleton.1 hchoice]
    exact Nat.add_pos_left Nat.one_pos _
  · rename_i c cs hinput
    rw [hinput]
    simp only [List.mem_cons, List.not_mem_nil, or_false] at hchoice
    rcases hchoice with rfl | rfl | rfl
    · exact Nat.add_pos_left Nat.one_pos _
    · simp
    · simp

theorem size_lt_of_mem_smaller {s t : Sample} (h : t ∈ s.smaller) : t.size < s.size := by
  rw [smaller, List.mem_append, List.mem_map] at h
  rcases h with ⟨inputs, hinputs, rfl⟩ | h
  · have hless := total_lt_of_mem_edits (fun input => 1 + input.length) total_lt_of_mem_smallerInput hinputs
    rw [total_succ_length, total_succ_length] at hless
    dsimp only [size]
    omega
  · split at h
    · rename_i rules hgrammar
      obtain ⟨edited, hedited, rfl⟩ := List.mem_map.1 h
      have hchoices : ∀ entry : String × Rule, ∀ choice ∈ entry.2.smaller.map (fun r => [(entry.1, r)]),
          total (fun entry => entry.2.nodes) choice < entry.2.nodes := by
        intro entry choice hchoice
        obtain ⟨less, hless, rfl⟩ := List.mem_map.1 hchoice
        exact Rule.nodes_lt_of_mem_smaller hless
      have hless := total_lt_of_mem_edits _ hchoices hedited
      rw [← Rule.nodesOfEntries_eq_total, ← Rule.nodesOfEntries_eq_total] at hless
      simp only [size, hgrammar, Rule.nodes]
      omega
    · cases h
    · cases h

/-- A sample that fails and of which no smaller one does, if the given one fails. -/
def shrink (fails : Sample → Bool) (s : Sample) : Sample :=
  match hfound : s.smaller.find? fails with
  | some t =>
    have : t.size < s.size := size_lt_of_mem_smaller (List.mem_of_find?_eq_some hfound)
    shrink fails t
  | none => s
termination_by s.size

end Sample

end PegGrammar
