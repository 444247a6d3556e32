import Mathlib.Data.List.Forall2
import Mathlib.Data.List.TakeDrop
import PegGrammar.Proofs.Pattern.Pieces

/-!
# Sets of two patterns

Where two patterns are read side by side, a set in brackets takes as much of the one as of the other. The stacks
of what is open hold the same kinds of frames; their members may differ, since a name can have other members in
another edition, and so may what a letter is without its case.
-/

namespace PegGrammar.Pattern

variable {tail cs cs' : List Char} {f f' : Flags}

theorem span_behind (htail : Closes tail) (h : Behind tail cs cs') (before : Char → Bool)
    (hbefore : before ')' = true) :
    (cs.span before).2 = [] ∧ (cs'.span before).2 = [] ∨
      (cs'.span before).1 = (cs.span before).1 ∧ Behind tail (cs.span before).2 (cs'.span before).2 := by
  simp only [List.span_eq_takeWhile_dropWhile]
  obtain rfl | ⟨rfl, rfl⟩ := h
  · induction cs with
    | nil =>
      obtain rfl | rfl := htail
      · exact .inl ⟨rfl, rfl⟩
      · exact .inl ⟨rfl, by simp [hbefore]⟩
    | cons c cs ih =>
      simp only [List.cons_append, List.takeWhile_cons, List.dropWhile_cons]
      split
      · rcases ih with hnone | ⟨htaken, hrest⟩
        · exact .inl hnone
        · exact .inr ⟨congrArg (c :: ·) htaken, hrest⟩
      · exact .inr ⟨rfl, .refl tail (c :: cs)⟩
  · exact .inl ⟨rfl, rfl⟩

/-- Two readers found a class by its name, or none. -/
def ClassAlike (tail : List Char) :
    Option (Bool × CodeSet × List Char) → Option (Bool × CodeSet × List Char) → Prop
  | none, none => True
  | some (_, _, rest), some (_, _, rest') => Behind tail rest rest'
  | _, _ => False

private theorem className_behind (htail : Closes tail) (negated : Bool) (h : Behind tail cs cs') :
    ClassAlike tail
      (match cs.span (· ≠ ':') with
        | (name, ':' :: ']' :: rest) =>
          (asciiClass? (String.ofList name)).bind fun members => some (negated, members, rest)
        | _ => none)
      (match cs'.span (· ≠ ':') with
        | (name, ':' :: ']' :: rest) =>
          (asciiClass? (String.ofList name)).bind fun members => some (negated, members, rest)
        | _ => none) := by
  have hspan := span_behind htail h (· ≠ ':') rfl
  generalize cs.span (· ≠ ':') = taken at hspan ⊢
  generalize cs'.span (· ≠ ':') = taken' at hspan ⊢
  obtain ⟨name, rest⟩ := taken
  obtain ⟨name', rest'⟩ := taken'
  rcases hspan with ⟨hnil, hnil'⟩ | ⟨hsame, hrest⟩
  · cases (hnil : rest = [])
    cases (hnil' : rest' = [])
    trivial
  · cases (hsame : name' = name)
    split
    · rename_i heq
      cases heq
      obtain ⟨ds, rfl, hds⟩ := Behind.cons hrest
      obtain ⟨es, rfl, hes⟩ := hds.cons
      change ClassAlike tail _ ((asciiClass? (String.ofList _)).bind fun members => some (negated, members, es))
      cases asciiClass? _ with
      | none => trivial
      | some members => exact hes
    · rename_i hother
      split
      · rename_i heq
        cases heq
        obtain ⟨ds, rfl, hds⟩ := hrest.cons' htail (by decide)
        obtain ⟨es, rfl, -⟩ := hds.cons' htail (by decide)
        exact (hother name es rfl).elim
      · trivial

theorem asciiClassItem?_behind (htail : Closes tail) (h : Behind tail cs cs') :
    ClassAlike tail (asciiClassItem? cs) (asciiClassItem? cs') := by
  have hnone : ∀ {cs : List Char}, (∀ ds, cs ≠ ':' :: ds) → asciiClassItem? cs = none := by
    intro cs hcs
    rw [asciiClassItem?.eq_def]
    split
    · exact (hcs _ rfl).elim
    · rfl
  by_cases hcolon : ∃ ds, cs = ':' :: ds
  · obtain ⟨ds, rfl⟩ := hcolon
    obtain ⟨ds', rfl, hds⟩ := h.cons
    by_cases hcaret : ∃ es, ds = '^' :: es
    · obtain ⟨es, rfl⟩ := hcaret
      obtain ⟨es', rfl, hes⟩ := hds.cons
      exact className_behind htail true hes
    · have hplain : ∀ es, ds ≠ '^' :: es := fun es hes => hcaret ⟨es, hes⟩
      rw [asciiClassItem?, asciiClassItem?]
      · exact className_behind htail false hds
      · exact hds.not_cons htail (by decide) hplain
      · exact hplain
  · have hother : ∀ ds, cs ≠ ':' :: ds := fun ds hds => hcolon ⟨ds, hds⟩
    rw [hnone hother, hnone (h.not_cons htail (by decide) hother)]
    trivial

theorem leadingDashes_behind (htail : Closes tail) (hf : f.Alike f') {steps steps' : Nat} {parts : Parts}
    (hsteps : cs.length ≤ steps) (hsteps' : cs'.length ≤ steps') (h : Behind tail cs cs')
    {found found' : Parts × List Char} (hfound : leadingDashes f parts steps cs = some found)
    (hfound' : leadingDashes f' parts steps' cs' = some found') :
    found'.1 = found.1 ∧ Behind tail found.2 found'.2 := by
  induction steps generalizing steps' parts cs cs' with
  | zero =>
    cases List.length_eq_zero_iff.1 (Nat.le_zero.1 hsteps)
    cases hfound
  | succ steps ih =>
    cases cs with
    | nil => cases hfound
    | cons c cs =>
      obtain ⟨ds, rfl, hds⟩ := h.cons
      obtain ⟨steps', rfl⟩ : ∃ n, steps' = n + 1 :=
        Nat.exists_eq_add_of_le' (Nat.le_trans (Nat.succ_le_succ (Nat.zero_le _)) hsteps')
      by_cases hdash : c = '-'
      · subst hdash
        refine ih ?_ ?_ (hds.dropBlanks htail hf) hfound hfound'
        · exact Nat.le_trans (length_dropBlanks_le f cs) (Nat.le_of_succ_le_succ hsteps)
        · exact Nat.le_trans (length_dropBlanks_le f' ds) (Nat.le_of_succ_le_succ hsteps')
      · have hother : ∀ (f : Flags) (steps : Nat) (cs : List Char),
            leadingDashes f parts (steps + 1) (c :: cs) = some (parts, c :: cs) := by
          intro f steps cs
          rw [leadingDashes.eq_def]
          split
          · rename_i heq
            cases heq
            exact (hdash rfl).elim
          · rename_i heq
            cases heq
          · rfl
        rw [hother] at hfound hfound'
        cases hfound
        cases hfound'
        exact ⟨rfl, h⟩

private theorem firstPart_behind (htail : Closes tail) (hf : f.Alike f') (h : Behind tail cs cs')
    {negated negated' : Bool} {opened opened' : Bool × Parts × List Char}
    (hopened : (match leadingDashes f .none cs.length cs with
      | some (parts, ']' :: cs) =>
        if parts.count = 0 then
          match dropBlanks f cs with
          | [] => none
          | cs => some (negated, parts.add (.single ']'.toNat) 0, cs)
        else some (negated, parts, ']' :: cs)
      | some (parts, cs) => some (negated, parts, cs)
      | none => none) = some opened)
    (hopened' : (match leadingDashes f' .none cs'.length cs' with
      | some (parts, ']' :: cs) =>
        if parts.count = 0 then
          match dropBlanks f' cs with
          | [] => none
          | cs => some (negated', parts.add (.single ']'.toNat) 0, cs)
        else some (negated', parts, ']' :: cs)
      | some (parts, cs) => some (negated', parts, cs)
      | none => none) = some opened') : Behind tail opened.2.2 opened'.2.2 := by
  rcases hfound : leadingDashes f .none cs.length cs with _ | ⟨parts, rest⟩ <;> rw [hfound] at hopened
  · cases hopened
  rcases hfound' : leadingDashes f' .none cs'.length cs' with _ | ⟨parts', rest'⟩ <;> rw [hfound'] at hopened'
  · cases hopened'
  obtain ⟨hparts, hrest⟩ :=
    leadingDashes_behind htail hf (Nat.le_refl _) (Nat.le_refl _) h hfound hfound'
  cases (hparts : parts' = parts)
  by_cases hbracket : ∃ ds, rest = ']' :: ds
  · obtain ⟨ds, rfl⟩ := hbracket
    obtain ⟨ds', rfl, hds⟩ := Behind.cons hrest
    change (if parts.count = 0 then
      match dropBlanks f ds with
      | [] => none
      | cs => some (negated, parts.add (.single ']'.toNat) 0, cs)
      else some (negated, parts, ']' :: ds)) = some opened at hopened
    change (if parts.count = 0 then
      match dropBlanks f' ds' with
      | [] => none
      | cs => some (negated', parts.add (.single ']'.toNat) 0, cs)
      else some (negated', parts, ']' :: ds')) = some opened' at hopened'
    split at hopened
    · rw [if_pos ‹_›] at hopened'
      have hblanks := hds.dropBlanks htail hf
      split at hopened
      · cases hopened
      · split at hopened'
        · cases hopened'
        · cases hopened
          cases hopened'
          exact hblanks
    · rw [if_neg ‹_›] at hopened'
      cases hopened
      cases hopened'
      exact hrest
  · split at hopened
    · rename_i heq
      cases heq
      exact (hbracket ⟨_, rfl⟩).elim
    · rename_i heq
      cases heq
      split at hopened'
      · rename_i heq
        cases heq
        obtain ⟨ds, hds, -⟩ := Behind.cons' htail (by decide) hrest
        exact (hbracket ⟨ds, hds⟩).elim
      · rename_i heq
        cases heq
        cases hopened
        cases hopened'
        exact hrest
      · rename_i heq
        cases heq
    · rename_i heq
      cases heq

theorem openBracket?_behind (htail : Closes tail) (hf : f.Alike f') (h : Behind tail cs cs')
    {opened opened' : Bool × Parts × List Char} (hopened : openBracket? f cs = some opened)
    (hopened' : openBracket? f' cs' = some opened') : Behind tail opened.2.2 opened'.2.2 := by
  have hstart := h.dropBlanks htail hf
  rw [openBracket?] at hopened hopened'
  by_cases hcaret : ∃ ds, dropBlanks f cs = '^' :: ds
  · obtain ⟨ds, hds⟩ := hcaret
    rw [hds] at hstart
    obtain ⟨ds', hds', hrest⟩ := hstart.cons
    rw [hds] at hopened
    rw [hds'] at hopened'
    exact firstPart_behind htail hf (hrest.dropBlanks htail hf) hopened hopened'
  · have hplain : ∀ ds, dropBlanks f cs ≠ '^' :: ds := fun ds hds => hcaret ⟨ds, hds⟩
    have hplain' := hstart.not_cons htail (by decide) hplain
    generalize dropBlanks f cs = inner at hopened hplain hstart
    generalize dropBlanks f' cs' = inner' at hopened' hplain' hstart
    split at hopened
    rename_i hnegated
    split at hnegated
    · exact (hplain _ rfl).elim
    · split at hopened'
      rename_i hnegated'
      split at hnegated'
      · exact (hplain' _ rfl).elim
      · cases hnegated
        cases hnegated'
        exact firstPart_behind htail hf hstart hopened hopened'

/-- Two readers take the same item, unless it is an assertion, which no set has. -/
theorem setItem?_behind (htail : Closes tail) (hf : f.Alike f') {edition : Edition}
    (h : Behind tail cs cs') {item item' : Primitive × List Char}
    (hitem : setItem? edition f cs = some item) (hitem' : setItem? .full f' cs' = some item') :
    PieceAlike tail item item' ∨ ∃ l, item.1 = .look l := by
  cases cs with
  | nil => cases hitem
  | cons c cs =>
    obtain ⟨cs', rfl, hrest⟩ := h.cons
    by_cases hescape : c = '\\'
    · subst hescape
      refine (escape?_behind htail hf hrest hitem hitem').imp_right ?_
      rintro ⟨l, -, inner, rfl, -⟩
      exact ⟨l, rfl⟩
    · have hplain : ∀ (edition : Edition) (f : Flags) (cs : List Char),
          setItem? edition f (c :: cs) = some (.char c false, cs) := by
        intro edition f cs
        rw [setItem?.eq_def]
        split
        · rename_i heq
          cases heq
        · rename_i heq
          cases heq
          exact (hescape rfl).elim
        · rename_i heq
          cases heq
          rfl
      rw [hplain] at hitem hitem'
      cases hitem
      cases hitem'
      exact .inl ⟨.char c false, hrest⟩

theorem peekPastBlanks_behind (htail : Closes tail) (hf : f.Alike f') (h : Behind tail cs cs') :
    (peekPastBlanks f' cs' = some ']' ∨ peekPastBlanks f' cs' = some '-') ↔
      (peekPastBlanks f cs = some ']' ∨ peekPastBlanks f cs = some '-') := by
  have hhead : ∀ {cs cs' : List Char}, Behind tail cs cs' →
      ((cs'.head? = some ']' ∨ cs'.head? = some '-') ↔ (cs.head? = some ']' ∨ cs.head? = some '-')) := by
    intro cs cs' h
    cases cs with
    | nil => obtain rfl | rfl := h.nil htail <;> simp
    | cons c cs =>
      obtain ⟨ds, rfl, -⟩ := h.cons
      exact Iff.rfl
  have hblank : isBlank ')' = false := by decide +kernel
  rw [peekPastBlanks, peekPastBlanks, hf.spaced]
  split
  · have hstart := h.dropWhile htail hblank
    by_cases hcomment : ∃ ds, cs.dropWhile isBlank = '#' :: ds
    · obtain ⟨ds, hds⟩ := hcomment
      rw [hds] at hstart ⊢
      obtain ⟨ds', hds', hrest⟩ := hstart.cons
      rw [hds']
      exact hhead (hrest.dropWhile htail hblank)
    · have hcomment' := hstart.not_cons htail (by decide) fun ds hds => hcomment ⟨ds, hds⟩
      split
      · exact (hcomment' _ ‹_›).elim
      · split
        · exact (hcomment ⟨_, ‹_›⟩).elim
        · exact hhead hstart
  · exact hhead h

theorem itemCode?_look (f : Flags) (l : Look) : itemCode? f (.look l) = none := rfl

theorem setRange?_behind (htail : Closes tail) (hf : f.Alike f') {edition : Edition}
    (h : Behind tail cs cs') {range range' : CodeSet × List Char}
    (hrange : setRange? edition f cs = some range) (hrange' : setRange? .full f' cs' = some range') :
    Behind tail range.2 range'.2 := by
  rw [setRange?] at hrange hrange'
  obtain ⟨⟨first, rest⟩, hfirst, hrange⟩ := Option.bind_eq_some_iff.1 hrange
  obtain ⟨⟨first', rest'⟩, hfirst', hrange'⟩ := Option.bind_eq_some_iff.1 hrange'
  dsimp only at hrange hrange'
  rcases setItem?_behind htail hf h hfirst hfirst' with ⟨-, hrest⟩ | ⟨l, hlook⟩
  · have hnext := hrest.dropBlanks htail hf
    split at hrange
    · cases hrange
    · rename_i behind hdash
      rw [hdash] at hnext
      obtain ⟨behind', hdash', hbehind⟩ := hnext.cons
      split at hrange'
      · rename_i heq
        cases hdash'.symm.trans heq
      · rename_i heq
        cases hdash'.symm.trans heq
        split at hrange
        · rw [if_pos ((peekPastBlanks_behind htail hf hbehind).2 ‹_›)] at hrange'
          obtain ⟨_, -, hrange⟩ := Option.bind_eq_some_iff.1 hrange
          obtain ⟨_, -, hrange'⟩ := Option.bind_eq_some_iff.1 hrange'
          cases hrange
          cases hrange'
          exact hrest.dropBlanks htail hf
        · rename_i hrangeless
          rw [if_neg (mt (peekPastBlanks_behind htail hf hbehind).1 hrangeless)] at hrange'
          obtain ⟨last, hlast, hrange⟩ := Option.bind_eq_some_iff.1 hrange
          obtain ⟨last', hlast', hrange'⟩ := Option.bind_eq_some_iff.1 hrange'
          obtain ⟨_, -, hrange⟩ := Option.bind_eq_some_iff.1 hrange
          obtain ⟨_, -, hrange'⟩ := Option.bind_eq_some_iff.1 hrange'
          obtain ⟨_, hhigh, hrange⟩ := Option.bind_eq_some_iff.1 hrange
          obtain ⟨_, -, hrange'⟩ := Option.bind_eq_some_iff.1 hrange'
          split at hrange
          · split at hrange'
            · cases hrange
              cases hrange'
              rcases setItem?_behind htail hf (hbehind.dropBlanks htail hf) hlast hlast' with
                ⟨-, hrest⟩ | ⟨l, hlook⟩
              · exact hrest
              · rw [hlook, itemCode?_look] at hhigh
                cases hhigh
            · cases hrange'
          · cases hrange
      · rename_i hother
        exact (hother behind' hdash').elim
    · rename_i hnil hdash
      split at hrange'
      · cases hrange'
      · rename_i heq
        rw [heq] at hnext
        obtain ⟨behind, heq, -⟩ := hnext.cons' htail (by decide)
        exact (hdash behind heq).elim
      · obtain ⟨_, -, hrange⟩ := Option.bind_eq_some_iff.1 hrange
        obtain ⟨_, -, hrange'⟩ := Option.bind_eq_some_iff.1 hrange'
        cases hrange
        cases hrange'
        exact hnext
  · cases (hlook : first = .look l)
    split at hrange
    · cases hrange
    · split at hrange
      · cases hrange
      · obtain ⟨_, -, hrange⟩ := Option.bind_eq_some_iff.1 hrange
        cases hrange
    · cases hrange

/-- The same brackets and operators are open. -/
inductive SetFrame.Alike : SetFrame → SetFrame → Prop
  | bracket (outer outer' : Parts) (negated negated' : Bool) :
      Alike (.bracket outer negated) (.bracket outer' negated')
  | operator (op op' : SetOperator) (left left' : Nested) : Alike (.operator op left) (.operator op' left')

theorem applyOperator_alike {v v' : Unicode.Version} {right right' : Nested}
    {frames frames' : List SetFrame} (h : List.Forall₂ SetFrame.Alike frames frames') :
    List.Forall₂ SetFrame.Alike (applyOperator v f right frames).2 (applyOperator v' f' right' frames').2 := by
  cases h with
  | nil => exact .nil
  | cons hframe hframes =>
    cases hframe with
    | bracket => exact .cons (.bracket _ _ _ _) hframes
    | operator => exact hframes

/-- What stands in a set in front of anything but a part. -/
inductive Marked : List Char → Prop
  | nothing : Marked []
  | opening (rest : List Char) : Marked ('[' :: rest)
  | closing (rest : List Char) : Marked (']' :: rest)
  | both (rest : List Char) : Marked ('&' :: '&' :: rest)
  | onlyLeft (rest : List Char) : Marked ('-' :: '-' :: rest)
  | exactlyOne (rest : List Char) : Marked ('~' :: '~' :: rest)

theorem Behind.marked (htail : Closes tail) (h : Behind tail cs cs') (hmarked : Marked cs')
    (hcs : cs ≠ []) : Marked cs := by
  have htwo : ∀ {c : Char} {rest : List Char}, c ≠ ')' → cs' = c :: c :: rest →
      ∃ ds, cs = c :: c :: ds := by
    rintro c rest hc rfl
    obtain ⟨ds, rfl, hds⟩ := h.cons' htail hc
    obtain ⟨es, rfl, -⟩ := hds.cons' htail hc
    exact ⟨es, rfl⟩
  cases hmarked with
  | nothing =>
    obtain ⟨c, ds, rfl⟩ := List.exists_cons_of_ne_nil hcs
    obtain ⟨_, heq, -⟩ := h.cons
    cases heq
  | opening rest =>
    obtain ⟨ds, rfl, -⟩ := h.cons' htail (by decide)
    exact .opening ds
  | closing rest =>
    obtain ⟨ds, rfl, -⟩ := h.cons' htail (by decide)
    exact .closing ds
  | both rest =>
    obtain ⟨ds, rfl⟩ := htwo (by decide) rfl
    exact .both ds
  | onlyLeft rest =>
    obtain ⟨ds, rfl⟩ := htwo (by decide) rfl
    exact .onlyLeft ds
  | exactlyOne rest =>
    obtain ⟨ds, rfl⟩ := htwo (by decide) rfl
    exact .exactlyOne ds

section

variable {edition : Edition} {steps : Nat} {frames : List SetFrame} {parts : Parts} {rest : List Char}

theorem readSet_opening (h : dropBlanks f cs = '[' :: rest) :
    readSet edition f (steps + 1) frames parts cs =
      match asciiClassItem? rest with
      | some (negated, members, rest) =>
        match finishSet edition.unicode f negated members with
        | some members => readSet edition f steps frames (parts.add members 0) rest
        | none => none
      | none =>
        match openBracket? f rest with
        | some (negated, inner, rest) =>
          readSet edition f steps (.bracket parts negated :: frames) inner rest
        | none => none := by
  rw [readSet, h]
  rfl

theorem readSet_closing (h : dropBlanks f cs = ']' :: rest) :
    readSet edition f (steps + 1) frames parts cs =
      match (applyOperator edition.unicode f parts.toNested frames).2 with
      | .bracket outer negated :: frames' =>
        match finishSet edition.unicode f negated
          (applyOperator edition.unicode f parts.toNested frames).1.members with
        | none => none
        | some members =>
          if frames'.isEmpty then
            if members.isEmpty ∧ !edition.emptySets then none
            else some (⟨members, (applyOperator edition.unicode f parts.toNested frames).1.depth + 1⟩, rest)
          else
            readSet edition f steps frames'
              (outer.add members ((applyOperator edition.unicode f parts.toNested frames).1.depth + 1)) rest
      | _ => none := by
  rw [readSet, h]
  rfl

theorem readSet_operator (op : SetOperator)
    (h : dropBlanks f cs = match op with
      | .both => '&' :: '&' :: rest
      | .onlyLeft => '-' :: '-' :: rest
      | .exactlyOne => '~' :: '~' :: rest) :
    readSet edition f (steps + 1) frames parts cs =
      readSet edition f steps
        (.operator op (applyOperator edition.unicode f parts.toNested frames).1 ::
          (applyOperator edition.unicode f parts.toNested frames).2) .none rest := by
  cases op
  all_goals
    rw [readSet, h]
    rfl

theorem readSet_part (h : ¬ Marked (dropBlanks f cs)) :
    readSet edition f (steps + 1) frames parts cs =
      match setRange? edition f (dropBlanks f cs) with
      | some (members, rest) => readSet edition f steps frames (parts.add members 0) rest
      | none => none := by
  rw [readSet]
  generalize dropBlanks f cs = inner at h
  split
  · exact (h .nothing).elim
  · exact (h (.opening _)).elim
  · exact (h (.closing _)).elim
  · exact (h (.both _)).elim
  · exact (h (.onlyLeft _)).elim
  · exact (h (.exactlyOne _)).elim
  · rfl

end

theorem readSet_behind (htail : Closes tail) (hf : f.Alike f') {edition : Edition} {steps steps' : Nat}
    {frames frames' : List SetFrame} (hframes : List.Forall₂ SetFrame.Alike frames frames')
    {parts parts' : Parts} (h : Behind tail cs cs') {found found' : Nested × List Char}
    (hfound : readSet edition f steps frames parts cs = some found)
    (hfound' : readSet .full f' steps' frames' parts' cs' = some found') : Behind tail found.2 found'.2 := by
  induction steps generalizing steps' frames frames' parts parts' cs cs' with
  | zero => cases hfound
  | succ steps ih =>
    cases steps' with
    | zero => cases hfound'
    | succ steps' =>
    have hstart := h.dropBlanks htail hf
    by_cases hmarked : Marked (dropBlanks f cs)
    · generalize hcs : dropBlanks f cs = inner at hmarked hstart
      cases hmarked with
      | nothing =>
        rw [readSet, hcs] at hfound
        cases hfound
      | opening rest =>
        obtain ⟨rest', hcs', hrest⟩ := hstart.cons
        rw [readSet_opening hcs] at hfound
        rw [readSet_opening hcs'] at hfound'
        have hclass := asciiClassItem?_behind htail hrest
        generalize asciiClassItem? rest = class? at hclass hfound
        generalize asciiClassItem? rest' = class?' at hclass hfound'
        match class?, class?' with
        | none, some _ | some _, none => exact hclass.elim
        | some (negated, members, rest), some (negated', members', rest') =>
          dsimp only at hfound hfound'
          split at hfound
          · split at hfound'
            · exact ih hframes hclass hfound hfound'
            · cases hfound'
          · cases hfound
        | none, none =>
          dsimp only at hfound hfound'
          split at hfound
          · rename_i hopened
            split at hfound'
            · rename_i hopened'
              exact ih (.cons (.bracket _ _ _ _) hframes)
                (openBracket?_behind htail hf hrest hopened hopened') hfound hfound'
            · cases hfound'
          · cases hfound
      | closing rest =>
        obtain ⟨rest', hcs', hrest⟩ := hstart.cons
        rw [readSet_closing hcs] at hfound
        rw [readSet_closing hcs'] at hfound'
        have hunder : List.Forall₂ SetFrame.Alike (applyOperator edition.unicode f parts.toNested frames).2
            (applyOperator Edition.full.unicode f' parts'.toNested frames').2 := applyOperator_alike hframes
        generalize applyOperator edition.unicode f parts.toNested frames = applied at hfound hunder
        generalize applyOperator Edition.full.unicode f' parts'.toNested frames' = applied' at hfound' hunder
        obtain ⟨whole, under⟩ := applied
        obtain ⟨whole', under'⟩ := applied'
        cases hunder with
        | nil => cases hfound
        | cons hframe hunder =>
          cases hframe with
          | operator => cases hfound
          | bracket outer outer' negated negated' =>
            dsimp only at hfound hfound'
            split at hfound
            · cases hfound
            split at hfound'
            · cases hfound'
            cases hunder with
            | nil =>
              dsimp only [List.isEmpty_nil] at hfound hfound'
              rw [if_pos rfl] at hfound hfound'
              split at hfound
              · cases hfound
              split at hfound'
              · cases hfound'
              · cases hfound
                cases hfound'
                exact hrest
            | cons hframe hunder =>
              exact ih (.cons hframe hunder) hrest hfound hfound'
      | both rest =>
        obtain ⟨more', hcs', hmore⟩ := hstart.cons
        obtain ⟨rest', rfl, hrest⟩ := hmore.cons
        rw [readSet_operator .both hcs] at hfound
        rw [readSet_operator .both hcs'] at hfound'
        exact ih (.cons (.operator _ _ _ _) (applyOperator_alike hframes)) hrest hfound hfound'
      | onlyLeft rest =>
        obtain ⟨more', hcs', hmore⟩ := hstart.cons
        obtain ⟨rest', rfl, hrest⟩ := hmore.cons
        rw [readSet_operator .onlyLeft hcs] at hfound
        rw [readSet_operator .onlyLeft hcs'] at hfound'
        exact ih (.cons (.operator _ _ _ _) (applyOperator_alike hframes)) hrest hfound hfound'
      | exactlyOne rest =>
        obtain ⟨more', hcs', hmore⟩ := hstart.cons
        obtain ⟨rest', rfl, hrest⟩ := hmore.cons
        rw [readSet_operator .exactlyOne hcs] at hfound
        rw [readSet_operator .exactlyOne hcs'] at hfound'
        exact ih (.cons (.operator _ _ _ _) (applyOperator_alike hframes)) hrest hfound hfound'
    · have hne : dropBlanks f cs ≠ [] := fun hnil => hmarked (hnil ▸ .nothing)
      have hmarked' : ¬ Marked (dropBlanks f' cs') := fun h => hmarked (hstart.marked htail h hne)
      rw [readSet_part hmarked] at hfound
      rw [readSet_part hmarked'] at hfound'
      split at hfound
      · rename_i hrange
        split at hfound'
        · rename_i hrange'
          exact ih hframes (setRange?_behind htail hf hstart hrange hrange') hfound hfound'
        · cases hfound'
      · cases hfound

theorem bracketed?_behind (htail : Closes tail) (hf : f.Alike f') {edition : Edition}
    (h : Behind tail cs cs') {found found' : Nested × List Char}
    (hfound : bracketed? edition f cs = some found) (hfound' : bracketed? .full f' cs' = some found') :
    Behind tail found.2 found'.2 := by
  rw [bracketed?] at hfound hfound'
  obtain ⟨⟨negated, parts, rest⟩, hopened, hread⟩ := Option.bind_eq_some_iff.1 hfound
  obtain ⟨⟨negated', parts', rest'⟩, hopened', hread'⟩ := Option.bind_eq_some_iff.1 hfound'
  exact readSet_behind htail hf (.cons (.bracket _ _ _ _) .nil)
    (openBracket?_behind htail hf h hopened hopened') hread hread'

end PegGrammar.Pattern
