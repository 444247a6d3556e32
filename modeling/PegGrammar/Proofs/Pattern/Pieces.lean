import PegGrammar.Pattern.Class

/-!
# Pieces of two patterns

Two patterns are read side by side: the same text, in an edition and in the full one, or the same text with
a closing parenthesis behind it. The flags agree but for what a dot matches. As long as both can be read,
every piece takes as much of the one as of the other, so what is left is the same text again. The classes
that a piece stands for may differ, since the editions know different characters.
-/

namespace PegGrammar.Pattern

/-- What may stand behind the second text: nothing, or a closing parenthesis. -/
def Closes (tail : List Char) : Prop := tail = [] ∨ tail = [')']

/-- The same text with a tail. At the end of the text, the tail may have been taken as a comment. -/
def Behind (tail cs cs' : List Char) : Prop := cs' = cs ++ tail ∨ cs = [] ∧ cs' = []

/-- Flags that agree but for what a dot matches. -/
structure Flags.Alike (f f' : Flags) : Prop where
  caseless : f'.caseless = f.caseless
  multiLine : f'.multiLine = f.multiLine
  swapGreed : f'.swapGreed = f.swapGreed
  unicode : f'.unicode = f.unicode
  crlf : f'.crlf = f.crlf
  spaced : f'.spaced = f.spaced

variable {tail cs cs' : List Char} {f f' : Flags}

theorem Behind.refl (tail cs : List Char) : Behind tail cs (cs ++ tail) := .inl rfl

theorem Behind.cons {c : Char} (h : Behind tail (c :: cs) cs') :
    ∃ ds, cs' = c :: ds ∧ Behind tail cs ds := by
  obtain rfl | ⟨hnil, -⟩ := h
  · exact ⟨cs ++ tail, rfl, .refl tail cs⟩
  · cases hnil

theorem Behind.cons' (htail : Closes tail) {c : Char} (hc : c ≠ ')') (h : Behind tail cs (c :: cs')) :
    ∃ ds, cs = c :: ds ∧ Behind tail ds cs' := by
  obtain heq | ⟨-, hnil⟩ := h
  · cases cs with
    | nil =>
      obtain rfl | rfl := htail
      · cases heq
      · cases heq
        exact (hc rfl).elim
    | cons d ds =>
      cases heq
      exact ⟨ds, rfl, .refl tail ds⟩
  · cases hnil

theorem Behind.not_cons (htail : Closes tail) {c : Char} (hc : c ≠ ')') (h : Behind tail cs cs')
    (hcs : ∀ ds, cs ≠ c :: ds) (ds : List Char) : cs' ≠ c :: ds := by
  rintro rfl
  obtain ⟨es, heq, -⟩ := h.cons' htail hc
  exact hcs es heq

theorem Behind.nil (htail : Closes tail) (h : Behind tail [] cs') : cs' = [] ∨ cs' = [')'] := by
  obtain rfl | ⟨-, rfl⟩ := h
  · exact htail
  · exact .inl rfl

/-! ### Blanks and numbers -/

theorem behind_dropBlanksFrom (htail : Closes tail) (comment : Bool) (cs : List Char) :
    Behind tail (dropBlanksFrom comment cs) (dropBlanksFrom comment (cs ++ tail)) := by
  induction cs generalizing comment with
  | nil =>
    obtain rfl | rfl := htail
    · exact .refl [] _
    · cases comment
      · exact .inl (by decide +kernel)
      · exact .inr ⟨rfl, rfl⟩
  | cons c cs ih =>
    rw [List.cons_append, dropBlanksFrom, dropBlanksFrom]
    split
    · exact ih _
    split
    · exact ih _
    split
    · exact ih _
    · exact .refl tail (c :: cs)

theorem Behind.dropBlanks (htail : Closes tail) (hf : f.Alike f') (h : Behind tail cs cs') :
    Behind tail (dropBlanks f cs) (dropBlanks f' cs') := by
  rw [Pattern.dropBlanks, Pattern.dropBlanks, hf.spaced]
  split
  · obtain rfl | ⟨rfl, rfl⟩ := h
    · exact behind_dropBlanksFrom htail false cs
    · exact .inr ⟨rfl, rfl⟩
  · exact h

theorem dropBlanks_nil (f : Flags) : dropBlanks f [] = [] := by
  rw [dropBlanks]
  split <;> rfl

theorem length_dropBlanks_le (f : Flags) (cs : List Char) : (dropBlanks f cs).length ≤ cs.length := by
  have hfrom : ∀ comment (cs : List Char), (dropBlanksFrom comment cs).length ≤ cs.length := by
    intro comment cs
    induction cs generalizing comment with
    | nil => exact Nat.le_refl _
    | cons c cs ih =>
      have hmore := fun comment => Nat.le_trans (ih comment) (Nat.le_succ cs.length)
      rw [dropBlanksFrom]
      split
      · exact hmore _
      split
      · exact hmore _
      split
      · exact hmore _
      · exact Nat.le_refl _
  rw [dropBlanks]
  split
  · exact hfrom false cs
  · exact Nat.le_refl _

theorem Behind.dropWhile (htail : Closes tail) {drops : Char → Bool} (hdrops : drops ')' = false)
    (h : Behind tail cs cs') : Behind tail (cs.dropWhile drops) (cs'.dropWhile drops) := by
  obtain rfl | ⟨rfl, rfl⟩ := h
  · induction cs with
    | nil =>
      obtain rfl | rfl := htail
      · exact .refl [] _
      · left
        simp [hdrops]
    | cons c cs ih =>
      rw [List.cons_append, List.dropWhile_cons, List.dropWhile_cons]
      split
      · exact ih
      · exact .refl tail (c :: cs)
  · exact .inr ⟨rfl, rfl⟩

theorem takeDigits_nil (f : Flags) (keep : Char → Bool) (steps : Nat) :
    takeDigits f keep steps [] = ([], []) := by
  cases steps <;> rfl

/-- Two readers took the same digits, and the same text is left; or a mark was looked for that is not
there, and nothing is left. -/
def TakesAlike (tail : List Char) (keep : Char → Bool) (taken taken' : List Char × List Char) : Prop :=
  taken'.1 = taken.1 ∧ Behind tail taken.2 taken'.2 ∨ keep ')' = true ∧ taken.2 = [] ∧ taken'.2 = []

theorem takesAlike_tail (htail : Closes tail) (h : Behind tail [] cs') (f' : Flags) (keep : Char → Bool)
    {steps' : Nat} (hsteps : cs'.length ≤ steps') :
    TakesAlike tail keep ([], []) (takeDigits f' keep steps' cs') := by
  obtain rfl | rfl := h.nil htail
  · rw [takeDigits_nil]
    exact .inl ⟨rfl, h⟩
  · obtain ⟨steps', rfl⟩ : ∃ n, steps' = n + 1 := Nat.exists_eq_add_of_le' hsteps
    rw [takeDigits, dropBlanks_nil, takeDigits_nil]
    split
    · exact .inr ⟨‹_›, rfl, rfl⟩
    · exact .inl ⟨rfl, h⟩

theorem takesAlike_takeDigits (htail : Closes tail) (hf : f.Alike f') (keep : Char → Bool)
    {steps steps' : Nat} (hsteps : steps = steps' ∨ cs.length ≤ steps ∧ cs'.length ≤ steps')
    (h : Behind tail cs cs') :
    TakesAlike tail keep (takeDigits f keep steps cs) (takeDigits f' keep steps' cs') := by
  induction steps generalizing steps' cs cs' with
  | zero =>
    rcases hsteps with rfl | ⟨hlength, hlength'⟩
    · exact .inl ⟨rfl, h⟩
    · cases List.length_eq_zero_iff.1 (Nat.le_zero.1 hlength)
      exact takesAlike_tail htail h f' keep hlength'
  | succ steps ih =>
    cases cs with
    | nil =>
      refine takesAlike_tail htail h f' keep ?_
      rcases hsteps with rfl | ⟨-, hlength'⟩
      · obtain rfl | rfl := h.nil htail
        · exact Nat.zero_le _
        · exact Nat.succ_le_succ (Nat.zero_le steps)
      · exact hlength'
    | cons c cs =>
      obtain ⟨ds, rfl, hds⟩ := h.cons
      obtain ⟨steps', rfl⟩ : ∃ n, steps' = n + 1 := by
        rcases hsteps with rfl | ⟨-, hlength'⟩
        · exact ⟨steps, rfl⟩
        · exact Nat.exists_eq_add_of_le' (Nat.le_trans (Nat.succ_le_succ (Nat.zero_le _)) hlength')
      rw [takeDigits, takeDigits]
      split
      · have hmore : steps = steps' ∨
            (dropBlanks f cs).length ≤ steps ∧ (dropBlanks f' ds).length ≤ steps' := by
          refine hsteps.imp Nat.succ.inj (And.imp (fun hle => ?_) (fun hle => ?_))
          · exact Nat.le_trans (length_dropBlanks_le f cs) (Nat.le_of_succ_le_succ hle)
          · exact Nat.le_trans (length_dropBlanks_le f' ds) (Nat.le_of_succ_le_succ hle)
        rcases ih hmore (hds.dropBlanks htail hf) with ⟨hdigits, hrest⟩ | hnone
        · exact .inl ⟨congrArg (c :: ·) hdigits, hrest⟩
        · exact .inr hnone
      · exact .inl ⟨rfl, h⟩

theorem decimal?_behind (htail : Closes tail) (hf : f.Alike f') (h : Behind tail cs cs') :
    (decimal? f' cs').1 = (decimal? f cs).1 ∧ Behind tail (decimal? f cs).2 (decimal? f' cs').2 := by
  have hblank : isBlank ')' = false := by decide +kernel
  have hlength : ∀ cs : List Char, (cs.dropWhile isBlank).length ≤ cs.length :=
    fun cs => (List.dropWhile_sublist _).length_le
  have htaken := takesAlike_takeDigits htail hf Char.isDigit (.inr ⟨hlength cs, hlength cs'⟩)
    (h.dropWhile htail hblank)
  rcases htaken with ⟨hdigits, hrest⟩ | ⟨hkeep, -⟩
  · rw [decimal?, decimal?]
    dsimp only
    rw [hdigits]
    exact ⟨rfl, (hrest.dropWhile htail hblank).dropBlanks htail hf⟩
  · cases hkeep

/-! ### Escapes -/

/-- What a piece stands for in two patterns: the same character, the same assertion, or some set. -/
inductive Primitive.Alike : Primitive → Primitive → Prop
  | char (c : Char) (byte : Bool) : Alike (.char c byte) (.char c byte)
  | set (members members' : CodeSet) : Alike (.set members) (.set members')
  | look (l : Look) : Alike (.look l) (.look l)

/-- Two readers took the same piece, and the same text is left. -/
def PieceAlike (tail : List Char) (piece piece' : Primitive × List Char) : Prop :=
  piece.1.Alike piece'.1 ∧ Behind tail piece.2 piece'.2

theorem takeDigits_of_mark (htail : Closes tail) (hf : f.Alike f') {keep : Char → Bool} {c : Char}
    {written rest : List Char} (h : Behind tail cs cs')
    (htaken : takeDigits f keep cs.length (dropBlanks f cs) = (written, c :: rest)) :
    ∃ rest', takeDigits f' keep cs'.length (dropBlanks f' cs') = (written, c :: rest') ∧
      Behind tail rest rest' := by
  have hlength := And.intro (length_dropBlanks_le f cs) (length_dropBlanks_le f' cs')
  have halike := takesAlike_takeDigits htail hf keep (.inr hlength) (h.dropBlanks htail hf)
  rw [htaken] at halike
  rcases halike with ⟨hwritten, hrest⟩ | ⟨-, hnil, -⟩
  · obtain ⟨rest', hcons, hrest⟩ := hrest.cons
    exact ⟨rest', Prod.ext hwritten hcons, hrest⟩
  · cases hnil

theorem hexEscape?_behind (htail : Closes tail) (hf : f.Alike f') {digits : Nat} (h : Behind tail cs cs')
    {piece piece' : Primitive × List Char} (hpiece : hexEscape? f digits cs = some piece)
    (hpiece' : hexEscape? f' digits cs' = some piece') : PieceAlike tail piece piece' := by
  have hstart := h.dropBlanks htail hf
  rw [hexEscape?] at hpiece hpiece'
  split at hpiece
  · rename_i inner hcs
    rw [hcs] at hstart
    obtain ⟨inner', hcs', hinner⟩ := hstart.cons
    split at hpiece'
    · rename_i hbrace
      cases hcs'.symm.trans hbrace
      rcases htaken : takeDigits f (· ≠ '\x7d') inner.length (dropBlanks f inner) with
        ⟨written, _ | ⟨c, rest⟩⟩
      · rw [htaken] at hpiece
        cases hpiece
      · obtain ⟨rest', htaken', hrest⟩ := takeDigits_of_mark htail hf hinner htaken
        rw [htaken] at hpiece
        rw [htaken'] at hpiece'
        obtain ⟨d, hd, hpiece⟩ := Option.bind_eq_some_iff.1 hpiece
        obtain ⟨d', hd', hpiece'⟩ := Option.bind_eq_some_iff.1 hpiece'
        cases hd.symm.trans hd'
        cases hpiece
        cases hpiece'
        exact ⟨.char d false, hrest.dropBlanks htail hf⟩
    · rename_i hbrace
      exact (hbrace inner' hcs').elim
  · rename_i hbrace
    split at hpiece'
    · rename_i inner' hcs'
      rw [hcs'] at hstart
      obtain ⟨inner, hcs, -⟩ := hstart.cons' htail (by decide)
      exact (hbrace inner hcs).elim
    · rcases takesAlike_takeDigits htail hf (Digits.isDigit 16) (.inl (rfl : digits = digits)) hstart with
        ⟨hwritten, hrest⟩ | ⟨hkeep, -⟩
      · dsimp only at hpiece hpiece'
        rw [hwritten] at hpiece'
        split at hpiece
        · rw [if_pos ‹_›] at hpiece'
          obtain ⟨d, hd, hpiece⟩ := Option.bind_eq_some_iff.1 hpiece
          obtain ⟨d', hd', hpiece'⟩ := Option.bind_eq_some_iff.1 hpiece'
          cases hd.symm.trans hd'
          cases hpiece
          cases hpiece'
          exact ⟨.char d _, hrest.dropBlanks htail hf⟩
        · cases hpiece
      · exact absurd hkeep (by decide +kernel)

theorem eq_set_of_property {edition : Edition} {negated : Bool} {found : Option (Bool × CodeSet)}
    {rest : List Char} {piece : Primitive × List Char}
    (h : (if (!f.unicode) = true then none
      else do
        let (outside, members) ← found
        let members ← finishSet edition.unicode f (negated != outside) members
        if members.isEmpty = true ∧ (!edition.emptySets) = true then none
        else some (Primitive.set members, rest)) = some piece) :
    ∃ members, piece = (.set members, rest) := by
  split at h
  · cases h
  · obtain ⟨⟨outside, members⟩, -, h⟩ := Option.bind_eq_some_iff.1 h
    obtain ⟨members', -, h⟩ := Option.bind_eq_some_iff.1 h
    split at h
    · cases h
    · cases h
      exact ⟨members', rfl⟩

theorem propertyClass?_behind (htail : Closes tail) (hf : f.Alike f') {edition edition' : Edition}
    {negated : Bool} (h : Behind tail cs cs') {piece piece' : Primitive × List Char}
    (hpiece : propertyClass? edition f negated cs = some piece)
    (hpiece' : propertyClass? edition' f' negated cs' = some piece') : PieceAlike tail piece piece' := by
  have hstart := h.dropBlanks htail hf
  have hsets : ∀ members members' rest rest', Behind tail rest rest' →
      PieceAlike tail (.set members, rest) (.set members', rest') :=
    fun members members' _ _ hrest => ⟨.set members members', hrest⟩
  rw [propertyClass?] at hpiece hpiece'
  split at hpiece
  · rename_i inner hcs
    rw [hcs] at hstart
    obtain ⟨inner', hcs', hinner⟩ := hstart.cons
    split at hpiece'
    · rename_i hbrace
      cases hcs'.symm.trans hbrace
      rcases htaken : takeDigits f (· ≠ '\x7d') inner.length (dropBlanks f inner) with
        ⟨written, _ | ⟨c, rest⟩⟩
      · rw [htaken] at hpiece
        cases hpiece
      · obtain ⟨rest', htaken', hrest⟩ := takeDigits_of_mark htail hf hinner htaken
        rw [htaken] at hpiece
        rw [htaken'] at hpiece'
        obtain ⟨members, rfl⟩ := eq_set_of_property hpiece
        obtain ⟨members', rfl⟩ := eq_set_of_property hpiece'
        exact hsets _ _ _ _ hrest
    · rename_i hbrace hcons
      cases hcs'.symm.trans hcons
      exact (hbrace rfl).elim
    · rename_i hnil
      cases hcs'.symm.trans hnil
  · rename_i c rest hbrace hcs
    rw [hcs] at hstart
    obtain ⟨rest', hcs', hrest⟩ := hstart.cons
    split at hpiece'
    · rename_i hcons
      cases hcs'.symm.trans hcons
      exact (hbrace rfl).elim
    · rename_i hcons
      cases hcs'.symm.trans hcons
      split at hpiece
      · cases hpiece
      · rw [if_neg ‹_›] at hpiece'
        obtain ⟨members, rfl⟩ := eq_set_of_property hpiece
        obtain ⟨members', rfl⟩ := eq_set_of_property hpiece'
        exact hsets _ _ _ _ (hrest.dropBlanks htail hf)
    · rename_i hnil
      cases hcs'.symm.trans hnil
  · cases hpiece

/-- Two readers found the same kind of a word edge in braces, or none. -/
def KindAlike (tail : List Char) : Option (Look × List Char) → Option (Look × List Char) → Prop
  | none, none => True
  | some (l, rest), some (l', rest') => l = l' ∧ Behind tail rest rest'
  | _, _ => False

theorem wordKind?_behind (htail : Closes tail) (hf : f.Alike f') (h : Behind tail cs cs')
    {kind kind' : Option (Look × List Char)} (hkind : wordKind? f cs = some kind)
    (hkind' : wordKind? f' cs' = some kind') : KindAlike tail kind kind' := by
  have hstart := h.dropBlanks htail hf
  rw [wordKind?] at hkind hkind'
  generalize dropBlanks f cs = inner at hkind hstart
  generalize dropBlanks f' cs' = inner' at hkind' hstart
  cases inner with
  | nil => cases hkind
  | cons c inner =>
    obtain ⟨inner', rfl, hinner⟩ := hstart.cons
    dsimp only at hkind hkind'
    split at hkind
    · rw [if_pos ‹_›] at hkind'
      cases hkind
      cases hkind'
      trivial
    · rw [if_neg ‹_›] at hkind'
      rcases takesAlike_takeDigits htail hf (fun c => c.isAlpha || decide (c = '-'))
        (.inr ⟨Nat.le_refl _, Nat.le_refl _⟩) hstart with ⟨hname, hrest⟩ | ⟨hkeep, -⟩
      · rw [hname, hf.unicode] at hkind'
        generalize (takeDigits f _ _ _).1 = name at hkind hkind'
        generalize (takeDigits f _ _ _).2 = rest at hkind hrest
        generalize (takeDigits f' _ _ _).2 = rest' at hkind' hrest
        split at hkind
        · obtain ⟨rest', rfl, hbehind⟩ := hrest.cons
          split at hkind'
          · rename_i hbrace
            cases hbrace
            generalize String.ofList name = word at hkind hkind'
            split at hkind
            case h_5 => cases hkind
            all_goals
              cases hkind
              cases hkind'
              exact ⟨rfl, hbehind⟩
          · cases hkind'
        · cases hkind
      · exact absurd hkeep (by decide)

/-- Behind an opening brace stands a name, so that the brace does not begin a repetition. -/
def Named (f : Flags) (cs : List Char) : Prop :=
  ∃ c rest, dropBlanks f cs = c :: rest ∧ (c.isAlpha || decide (c = '-')) = true

theorem named_of_wordKind? {kind : Look × List Char} (h : wordKind? f cs = some (some kind)) :
    Named f cs := by
  rw [wordKind?] at h
  dsimp only at h
  split at h
  · cases h
  · rename_i c rest hcs
    split at h
    · cases h
    · rename_i hname
      exact ⟨c, rest, hcs, by simpa [Bool.or_eq_true, Classical.or_iff_not_imp_left] using hname⟩

theorem Named.behind (htail : Closes tail) (hf : f.Alike f') (h : Named f' cs') (hcs : Behind tail cs cs') :
    Named f cs := by
  obtain ⟨c, rest, hcons, hc⟩ := h
  have hstart := hcs.dropBlanks htail hf
  rw [hcons] at hstart
  have hne : c ≠ ')' := by
    rintro rfl
    exact absurd hc (by decide)
  obtain ⟨ds, hds, -⟩ := hstart.cons' htail hne
  exact ⟨c, ds, hds, hc⟩

/-- What one edition takes for a word edge in front of braces, the full notation takes for a kind of it. -/
def TakenForKind (f : Flags) (piece piece' : Primitive × List Char) : Prop :=
  ∃ l l' inner, piece = (.look l, '\x7b' :: inner) ∧ piece'.1 = .look l' ∧ Named f inner

/-- The characters that mean something behind a backslash. -/
def spokenFor : List Char := ['a', 'f', 't', 'n', 'r', 'v', 'A', 'z', 'b', 'B', '<', '>']

theorem mem_spokenFor_of_letterEscape? {c d : Char} (h : letterEscape? c = some d) : c ∈ spokenFor := by
  rw [letterEscape?.eq_def] at h
  split at h <;> first
    | decide
    | cases h

theorem isPlainEscape_of_mem_spokenFor {c : Char} (hc : c ∈ spokenFor) :
    isPlainEscape .full f c ≠ true := by
  simp only [spokenFor, List.mem_cons, List.not_mem_nil, or_false] at hc
  rcases hc with rfl | rfl | rfl | rfl | rfl | rfl | rfl | rfl | rfl | rfl | rfl | rfl <;> nofun

theorem eq_set_of_shortClass? {v : Unicode.Version} {c : Char} {piece : Primitive}
    (h : shortClass? v f c = some piece) : ∃ members, piece = .set members := by
  rw [shortClass?] at h
  dsimp only at h
  split at h
  · cases h
    exact ⟨_, rfl⟩
  split at h
  · cases h
  · cases h
    exact ⟨_, rfl⟩

theorem isPlainEscape_full (hf : f.Alike f') {edition : Edition} {c : Char}
    (h : isPlainEscape edition f c = true) : isPlainEscape .full f' c = true := by
  simp only [isPlainEscape, hf.spaced, Bool.or_eq_true, Bool.and_eq_true] at h ⊢
  rcases h with h | ⟨⟨⟨⟨-, hascii⟩, hletter⟩, hleft⟩, hright⟩
  · exact .inl h
  · exact .inr ⟨⟨⟨⟨rfl, hascii⟩, hletter⟩, hleft⟩, hright⟩

theorem escape?_wordEdge (f : Flags) (h : ∀ inner, cs ≠ '\x7b' :: inner) :
    escape? .full f ('b' :: cs) = some (.look (.wordEdge !f.unicode), cs) := by
  have hletter : letterEscape? 'b' = none := rfl
  have hplain : isPlainEscape .full f 'b' = false := rfl
  simp [escape?, hletter, hplain]

theorem escape?_braces (edition : Edition) (f : Flags) (inner : List Char) :
    escape? edition f ('b' :: '\x7b' :: inner) =
      if edition.wordSides then
        match wordKind? f inner with
        | none => none
        | some none => some (.look (.wordEdge !f.unicode), '\x7b' :: inner)
        | some (some (l, rest)) => some (.look l, rest)
      else some (.look (.wordEdge !f.unicode), '\x7b' :: inner) := by
  have hplain : isPlainEscape edition f 'b' = false := by
    have halphanum : 'b'.isAlphanum = true := rfl
    have hmark : isMark 'b' = false := rfl
    simp [isPlainEscape, hmark, halphanum]
  exact if_neg (Bool.eq_false_iff.1 hplain)

theorem escape?_braces_behind (htail : Closes tail) (hf : f.Alike f') {edition : Edition}
    {inner inner' : List Char} (h : Behind tail ('\x7b' :: inner) ('\x7b' :: inner'))
    {piece piece' : Primitive × List Char} (hpiece : escape? edition f ('b' :: '\x7b' :: inner) = some piece)
    (hpiece' : escape? .full f' ('b' :: '\x7b' :: inner') = some piece') :
    PieceAlike tail piece piece' ∨ TakenForKind f piece piece' := by
  obtain ⟨_, heq, hinner⟩ := h.cons
  cases heq
  have hsides : Edition.full.wordSides = true := rfl
  rw [escape?_braces] at hpiece hpiece'
  rw [if_pos hsides, hf.unicode] at hpiece'
  split at hpiece'
  · cases hpiece'
  all_goals cases hpiece'
  · rename_i hkind'
    split at hpiece
    · split at hpiece
      · cases hpiece
      all_goals cases hpiece
      · exact .inl ⟨.look _, h⟩
      · rename_i hkind
        exact (wordKind?_behind htail hf hinner hkind hkind').elim
    · cases hpiece
      exact .inl ⟨.look _, h⟩
  · rename_i l rest' hkind'
    split at hpiece
    · split at hpiece
      · cases hpiece
      all_goals cases hpiece
      · rename_i hkind
        exact (wordKind?_behind htail hf hinner hkind hkind').elim
      · rename_i hkind
        obtain ⟨rfl, hrest⟩ := wordKind?_behind htail hf hinner hkind hkind'
        exact .inl ⟨.look _, hrest⟩
    · cases hpiece
      exact .inr ⟨_, l, _, rfl, rfl, (named_of_wordKind? hkind').behind htail hf hinner⟩

/-- Two readers take the same escape, unless it is the edge of a word of some kind. -/
theorem escape?_behind (htail : Closes tail) (hf : f.Alike f') {edition : Edition}
    (h : Behind tail cs cs') {piece piece' : Primitive × List Char}
    (hpiece : escape? edition f cs = some piece) (hpiece' : escape? .full f' cs' = some piece') :
    PieceAlike tail piece piece' ∨ TakenForKind f piece piece' := by
  cases cs with
  | nil => cases hpiece
  | cons c cs =>
    obtain ⟨cs', rfl, hrest⟩ := h.cons
    have hwhole := hpiece
    have hfull := hpiece'
    rw [escape?.eq_def] at hpiece hpiece'
    dsimp only at hpiece hpiece'
    split at hpiece
    · cases hpiece
    rw [if_neg ‹_›] at hpiece'
    split at hpiece
    · rw [if_pos ‹_›] at hpiece'
      exact .inl (hexEscape?_behind htail hf hrest hpiece hpiece')
    rw [if_neg ‹_›] at hpiece'
    split at hpiece
    · rw [if_pos ‹_›] at hpiece'
      exact .inl (hexEscape?_behind htail hf hrest hpiece hpiece')
    rw [if_neg ‹_›] at hpiece'
    split at hpiece
    · rw [if_pos ‹_›] at hpiece'
      exact .inl (hexEscape?_behind htail hf hrest hpiece hpiece')
    rw [if_neg ‹_›] at hpiece'
    split at hpiece
    · rw [if_pos ‹_›] at hpiece'
      exact .inl (propertyClass?_behind htail hf hrest hpiece hpiece')
    rw [if_neg ‹_›] at hpiece'
    split at hpiece
    · rw [if_pos ‹_›] at hpiece'
      obtain ⟨found, hfound, rfl⟩ := Option.map_eq_some_iff.1 hpiece
      obtain ⟨found', hfound', rfl⟩ := Option.map_eq_some_iff.1 hpiece'
      obtain ⟨members, rfl⟩ := eq_set_of_shortClass? hfound
      obtain ⟨members', rfl⟩ := eq_set_of_shortClass? hfound'
      exact .inl ⟨.set members members', hrest⟩
    rw [if_neg ‹_›] at hpiece'
    split at hpiece
    · rw [if_pos (isPlainEscape_full hf ‹_›)] at hpiece'
      cases hpiece
      cases hpiece'
      exact .inl ⟨.char c false, hrest⟩
    split at hpiece
    · rename_i d hletter
      rw [if_neg (isPlainEscape_of_mem_spokenFor (mem_spokenFor_of_letterEscape? hletter)), hletter] at hpiece'
      cases hpiece
      cases hpiece'
      exact .inl ⟨.char d false, hrest⟩
    · rename_i hletter
      split at hpiece
      · cases hpiece
        cases hfull
        exact .inl ⟨.look .textStart, hrest⟩
      · cases hpiece
        cases hfull
        exact .inl ⟨.look .textEnd, hrest⟩
      · obtain ⟨inner', rfl, -⟩ := hrest.cons
        exact escape?_braces_behind htail hf hrest hwhole hfull
      · rename_i hbrace
        rw [escape?_wordEdge f' (hrest.not_cons htail (by decide) hbrace), hf.unicode] at hfull
        cases hpiece
        cases hfull
        exact .inl ⟨.look _, hrest⟩
      · split at hpiece
        · cases hpiece
        · change (if (!f'.unicode) = true ∧ (!Edition.full.asciiNoWordEdge) = true then none
            else some (Primitive.look (.noWordEdge !f'.unicode), cs')) = some piece' at hfull
          rw [hf.unicode] at hfull
          split at hfull
          · cases hfull
          · cases hpiece
            cases hfull
            exact .inl ⟨.look _, hrest⟩
      · split at hpiece
        · change some (Primitive.look (.wordStart !f'.unicode), cs') = some piece' at hfull
          rw [hf.unicode] at hfull
          cases hpiece
          cases hfull
          exact .inl ⟨.look _, hrest⟩
        · cases hpiece
      · split at hpiece
        · change some (Primitive.look (.wordEnd !f'.unicode), cs') = some piece' at hfull
          rw [hf.unicode] at hfull
          cases hpiece
          cases hfull
          exact .inl ⟨.look _, hrest⟩
        · cases hpiece
      · cases hpiece

end PegGrammar.Pattern
