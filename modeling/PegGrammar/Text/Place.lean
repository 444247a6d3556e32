import PegGrammar.Text.Width

/-!
# Places in a text

A place splits a text into what was read, most recent character first, and the rest. Both halves
are lists, so going back to an earlier place costs nothing but the way between the two, a test of
what follows looks at the head of one list, and a test of what precedes at the head of the other.

A place never stands inside a character: its offset is the width of what was read, and a seek to
an offset inside a character ends behind that character.
-/

namespace PegGrammar

/-- A place between two characters of a text. -/
structure Place where
  /-- What stands before the place, nearest character first. -/
  read : List Char
  /-- What stands behind the place. -/
  rest : List Char
  /-- The byte offset of the place. -/
  offset : Nat
  /-- The offset is the width of what was read. -/
  offset_eq : offset = byteLength read

namespace Place

def start (text : List Char) : Place := ⟨[], text, 0, rfl⟩

def source (p : Place) : List Char := p.read.reverse ++ p.rest

/-- The width of the whole text. -/
def sourceLength (p : Place) : Nat := p.offset + byteLength p.rest

/-- The place behind a character that follows. -/
def past (p : Place) (c : Char) (cs : List Char) : Place :=
  ⟨c :: p.read, cs, p.offset + c.utf8Size, by
    rw [byteLength_cons, Nat.add_comm, p.offset_eq]⟩

def next? (p : Place) : Option (Char × Place) :=
  match p.rest with
  | [] => none
  | c :: cs => some (c, p.past c cs)

/-- Whether nothing is left to read. -/
def atEnd (p : Place) : Bool := p.rest.isEmpty

private def forwardFrom (n : Nat) (read : List Char) (offset : Nat)
    (h : offset = byteLength read) : List Char → Place
  | [] => ⟨read, [], offset, h⟩
  | c :: cs =>
    if n ≤ offset then ⟨read, c :: cs, offset, h⟩
    else forwardFrom n (c :: read) (offset + c.utf8Size)
      (by rw [byteLength_cons, Nat.add_comm, h]) cs

/-- The first place at or behind this one whose offset is at least `n`, or the end. -/
def forward (p : Place) (n : Nat) : Place := forwardFrom n p.read p.offset p.offset_eq p.rest

private def backwardFrom (n : Nat) (rest : List Char) (offset : Nat) :
    (read : List Char) → offset = byteLength read → Place
  | [], h => ⟨[], rest, offset, h⟩
  | c :: cs, h =>
    if offset ≤ n then ⟨c :: cs, rest, offset, h⟩
    else backwardFrom n (c :: rest) (offset - c.utf8Size) cs
      (by rw [byteLength_cons] at h; omega)

/-- The last place at or in front of this one whose offset is at most `n`. -/
def backward (p : Place) (n : Nat) : Place := backwardFrom n p.rest p.offset p.read p.offset_eq

/-- The place at byte offset `n`: at the end if the text is shorter, and behind a character that
`n` would cut. -/
def seek (p : Place) (n : Nat) : Place := (p.backward n).forward n

/-- The place behind `text`, if that text follows. -/
def eat? : List Char → Place → Option Place
  | [], p => some p
  | c :: cs, p =>
    match p.rest with
    | [] => none
    | d :: ds => if c = d then eat? cs (p.past d ds) else none

private def charsUpTo (stop offset : Nat) (taken : List Char) : List Char → List Char
  | [] => taken.reverse
  | c :: cs =>
    if stop ≤ offset then taken.reverse else charsUpTo stop (offset + c.utf8Size) (c :: taken) cs

/-- The text from this place up to byte offset `stop`, empty if that lies behind. -/
def textTo (p : Place) (stop : Nat) : String :=
  String.ofList (charsUpTo stop p.offset [] p.rest)

/-- Line and column of a place, both from one: lines are counted by the line feeds before it, and
columns in characters since the last of them. -/
def lineCol (p : Place) : Nat × Nat :=
  (p.read.count '\n' + 1, (p.read.takeWhile (· ≠ '\n')).length + 1)

/-! ### Places of one text

Every move stays in the text, and a text has one place at most at an offset. So an offset is enough
to come back to a place, from wherever in the text. -/

@[simp] theorem source_past (p : Place) {c : Char} {cs : List Char} (h : p.rest = c :: cs) :
    (p.past c cs).source = p.source := by
  simp [source, past, h]

private theorem source_forwardFrom (n : Nat) (read : List Char) (offset : Nat)
    (h : offset = byteLength read) (rest : List Char) :
    (forwardFrom n read offset h rest).source = read.reverse ++ rest := by
  induction rest generalizing read offset with
  | nil => rfl
  | cons c cs ih =>
    rw [forwardFrom]
    split
    · rfl
    · rw [ih]
      simp

private theorem source_backwardFrom (n : Nat) (rest : List Char) (offset : Nat) (read : List Char)
    (h : offset = byteLength read) :
    (backwardFrom n rest offset read h).source = read.reverse ++ rest := by
  induction read generalizing rest offset with
  | nil => rfl
  | cons c cs ih =>
    rw [backwardFrom]
    split
    · rfl
    · rw [ih]
      simp

private theorem offset_backwardFrom_le (n : Nat) (rest : List Char) (offset : Nat)
    (read : List Char) (h : offset = byteLength read) :
    (backwardFrom n rest offset read h).offset ≤ n := by
  induction read generalizing rest offset with
  | nil => exact h ▸ Nat.zero_le n
  | cons c cs ih =>
    rw [backwardFrom]
    split
    · assumption
    · exact ih _ _ _

@[simp] theorem source_seek (p : Place) (n : Nat) : (p.seek n).source = p.source := by
  rw [seek, forward, source_forwardFrom]
  exact source_backwardFrom n p.rest p.offset p.read p.offset_eq

@[simp] theorem byteLength_source (p : Place) : byteLength p.source = p.offset + byteLength p.rest := by
  rw [source, byteLength_append, byteLength_reverse, p.offset_eq]

theorem exists_behind {p : Place} {text rest : List Char} (h : p.rest = text ++ rest) :
    ∃ q : Place, q.source = p.source ∧ q.offset = p.offset + byteLength text := by
  refine ⟨⟨text.reverse ++ p.read, rest, p.offset + byteLength text, ?_⟩, ?_, rfl⟩
  · rw [byteLength_append, byteLength_reverse, p.offset_eq, Nat.add_comm]
  · simp [source, h]

theorem read_prefix {p q : Place} (hsource : p.source = q.source) (hle : p.offset ≤ q.offset) :
    p.read.reverse <+: q.read.reverse := by
  have hp : p.read.reverse <+: q.source := hsource ▸ List.prefix_append _ _
  have hq : q.read.reverse <+: q.source := List.prefix_append _ _
  rcases Nat.le_total p.read.reverse.length q.read.reverse.length with hlen | hlen
  · exact List.prefix_of_prefix_length_le hp hq hlen
  · obtain ⟨more, hmore⟩ := List.prefix_of_prefix_length_le hq hp hlen
    have hwidth : byteLength q.read + byteLength more = byteLength p.read := by
      rw [← byteLength_reverse p.read, ← hmore, byteLength_append, byteLength_reverse]
    have hnone : more.length = 0 := by
      have := length_le_byteLength more
      have := p.offset_eq
      have := q.offset_eq
      omega
    rw [List.length_eq_zero_iff.1 hnone, List.append_nil] at hmore
    exact hmore ▸ List.prefix_refl _

/-- A text has one place at most at an offset. -/
theorem eq_of_source_of_offset {p q : Place} (hsource : p.source = q.source)
    (hoffset : p.offset = q.offset) : p = q := by
  have hpq := read_prefix hsource (Nat.le_of_eq hoffset)
  have hqp := read_prefix hsource.symm (Nat.le_of_eq hoffset.symm)
  have hread : p.read.reverse = q.read.reverse :=
    hpq.eq_of_length (Nat.le_antisymm hpq.length_le hqp.length_le)
  have hrest : p.rest = q.rest := by
    have h := hsource
    rw [source, source, hread] at h
    exact List.append_cancel_left h
  cases p
  cases q
  simp_all

/-- Between two places of a text stands what follows the one and not the other. -/
theorem exists_between {p q : Place} (hsource : p.source = q.source) (hle : p.offset ≤ q.offset) :
    ∃ text, p.rest = text ++ q.rest ∧ q.offset = p.offset + byteLength text := by
  obtain ⟨text, htext⟩ := read_prefix hsource hle
  refine ⟨text, ?_, ?_⟩
  · have h := hsource
    rw [source, source, ← htext, List.append_assoc] at h
    exact List.append_cancel_left h
  · rw [q.offset_eq, p.offset_eq, ← byteLength_reverse q.read, ← htext, byteLength_append,
      byteLength_reverse]

private theorem forward_eq_of_source (q : Place) (read : List Char) (offset : Nat)
    (h : offset = byteLength read) (rest : List Char) (hsource : read.reverse ++ rest = q.source)
    (hle : offset ≤ q.offset) : forwardFrom q.offset read offset h rest = q := by
  induction rest generalizing read offset with
  | nil =>
    refine eq_of_source_of_offset hsource ?_
    have hwide : byteLength q.source = byteLength read := by rw [← hsource]; simp
    rw [byteLength_source] at hwide
    show offset = q.offset
    omega
  | cons c cs ih =>
    rw [forwardFrom]
    split
    · rename_i hge
      exact eq_of_source_of_offset hsource (Nat.le_antisymm hle hge)
    · rename_i hlt
      refine ih _ _ _ (by simpa using hsource) ?_
      obtain ⟨text, hrest, hoffset⟩ :=
        exists_between (p := ⟨read, c :: cs, offset, h⟩) (q := q) hsource hle
      change c :: cs = text ++ q.rest at hrest
      change q.offset = offset + byteLength text at hoffset
      cases text with
      | nil =>
        rw [byteLength_nil] at hoffset
        omega
      | cons d ds =>
        rw [List.cons_append, List.cons.injEq] at hrest
        rw [byteLength_cons, ← hrest.1] at hoffset
        omega

theorem seek_offset {p q : Place} (hsource : p.source = q.source) : p.seek q.offset = q := by
  refine forward_eq_of_source q _ _ _ _ ?_ (offset_backwardFrom_le _ _ _ _ _)
  exact (source_backwardFrom q.offset p.rest p.offset p.read p.offset_eq).trans hsource

private theorem le_offset_forwardFrom (n : Nat) (read : List Char) (offset : Nat)
    (h : offset = byteLength read) (rest : List Char) :
    offset ≤ (forwardFrom n read offset h rest).offset := by
  induction rest generalizing read offset with
  | nil => exact Nat.le_refl _
  | cons c cs ih =>
    rw [forwardFrom]
    split
    · exact Nat.le_refl _
    · exact Nat.le_trans (Nat.le_add_right _ _) (ih _ _ _)

private theorem backwardFrom_of_le {n offset : Nat} (hle : offset ≤ n) (rest read : List Char)
    (h : offset = byteLength read) :
    backwardFrom n rest offset read h = ⟨read, rest, offset, h⟩ := by
  cases read with
  | nil => cases h; rfl
  | cons c cs => rw [backwardFrom, if_pos hle]

theorem le_offset_seek {p : Place} {n : Nat} (h : p.offset ≤ n) : p.offset ≤ (p.seek n).offset := by
  have hback : p.backward n = p := backwardFrom_of_le h p.rest p.read p.offset_eq
  rw [seek, hback]
  exact le_offset_forwardFrom n p.read p.offset p.offset_eq p.rest

private theorem mem_offsets_append (m : Nat) (before rest : List Char) :
    m + byteLength before ∈ offsets m (before ++ rest) := by
  induction before generalizing m with
  | nil => cases rest <;> exact List.mem_cons_self
  | cons c before ih =>
    rw [byteLength_cons, ← Nat.add_assoc]
    exact List.mem_cons_of_mem _ (ih _)

theorem offset_mem_offsets (p : Place) : p.offset ∈ offsets 0 p.source := by
  have hmem := mem_offsets_append 0 p.read.reverse p.rest
  rwa [Nat.zero_add, byteLength_reverse, ← p.offset_eq] at hmem

private theorem find?_offsets_append {n m : Nat} (before rest : List Char) (h : m + byteLength before ≤ n) :
    (offsets m (before ++ rest)).find? (n ≤ ·) =
      (offsets (m + byteLength before) rest).find? (n ≤ ·) := by
  induction before generalizing m with
  | nil => rfl
  | cons c before ih =>
    have hpos := c.utf8Size_pos
    rw [byteLength_cons, ← Nat.add_assoc] at h
    have hskip : decide (n ≤ m) = false := decide_eq_false (by omega)
    rw [List.cons_append, offsets, List.find?_cons, hskip, ih h, byteLength_cons, Nat.add_assoc]

private theorem offset_forwardFrom (n : Nat) (read : List Char) (offset : Nat)
    (h : offset = byteLength read) (rest : List Char) :
    (forwardFrom n read offset h rest).offset =
      ((offsets offset rest).find? (n ≤ ·)).getD (offset + byteLength rest) := by
  induction rest generalizing read offset with
  | nil =>
    rw [forwardFrom, offsets, List.find?_cons]
    split <;> rfl
  | cons c cs ih =>
    rw [forwardFrom, offsets, List.find?_cons]
    split
    · rename_i hle
      rw [decide_eq_true hle]
      rfl
    · rename_i hlt
      rw [decide_eq_false hlt, ih, byteLength_cons, Nat.add_assoc]

/-- A seek ends at the first place whose offset is at least `n`, or at the end of a shorter text. -/
theorem offset_seek (p : Place) (n : Nat) :
    (p.seek n).offset = ((offsets 0 p.source).find? (n ≤ ·)).getD (byteLength p.source) := by
  have hsource : (p.backward n).source = p.source :=
    source_backwardFrom n p.rest p.offset p.read p.offset_eq
  have hle : (p.backward n).offset ≤ n := offset_backwardFrom_le n p.rest p.offset p.read p.offset_eq
  have hread : 0 + byteLength (p.backward n).read.reverse = (p.backward n).offset := by
    rw [Nat.zero_add, byteLength_reverse, (p.backward n).offset_eq]
  have hfind := find?_offsets_append (p.backward n).read.reverse (p.backward n).rest (hread ▸ hle)
  rw [hread] at hfind
  rw [seek, forward, offset_forwardFrom, ← byteLength_source, ← hsource, ← hfind]
  rfl

private theorem charsUpTo_append (text rest taken : List Char) (offset : Nat) :
    charsUpTo (offset + byteLength text) offset taken (text ++ rest) = taken.reverse ++ text := by
  induction text generalizing offset taken with
  | nil =>
    cases rest with
    | nil => simp [charsUpTo]
    | cons c cs => simp [charsUpTo]
  | cons c text ih =>
    have hpos := c.utf8Size_pos
    have hlt : ¬ offset + byteLength (c :: text) ≤ offset := by
      rw [byteLength_cons]
      omega
    rw [List.cons_append, charsUpTo, if_neg hlt, byteLength_cons, ← Nat.add_assoc, ih]
    simp

theorem textTo_of_rest {p : Place} {text rest : List Char} (h : p.rest = text ++ rest) :
    p.textTo (p.offset + byteLength text) = String.ofList text := by
  rw [textTo, h, charsUpTo_append, List.reverse_nil, List.nil_append]

theorem eat?_eq_some {text : List Char} {p q : Place} (h : eat? text p = some q) :
    q.source = p.source ∧ p.rest = text ++ q.rest := by
  induction text generalizing p with
  | nil =>
    rw [eat?, Option.some.injEq] at h
    exact h ▸ ⟨rfl, rfl⟩
  | cons c cs ih =>
    rw [eat?] at h
    split at h
    · cases h
    · rename_i d ds hrest
      split at h
      · rename_i hc
        obtain ⟨hsource, hds⟩ := ih h
        refine ⟨hsource.trans (source_past p hrest), ?_⟩
        rw [hrest, hc, List.cons_append]
        exact congrArg (d :: ·) hds
      · cases h

theorem isSome_eat? (text : List Char) (p : Place) : (eat? text p).isSome = text.isPrefixOf p.rest := by
  induction text generalizing p with
  | nil => simp [eat?]
  | cons c cs ih =>
    rw [eat?]
    split
    · rename_i hrest
      rw [hrest]
      rfl
    · rename_i d ds hrest
      rw [hrest, List.isPrefixOf]
      split
      · rename_i hc
        rw [ih, hc, beq_self_eq_true, Bool.true_and]
        rfl
      · rename_i hc
        rw [beq_false_of_ne hc, Bool.false_and]
        rfl

/-! ### More text in front

Where a text has more in front of it, everything lies as much further on. -/

private theorem offsets_add (n m : Nat) (cs : List Char) :
    offsets (n + m) cs = (offsets m cs).map (n + ·) := by
  induction cs generalizing m with
  | nil => rfl
  | cons c cs ih => rw [offsets, offsets, List.map_cons, Nat.add_assoc, ih]

theorem offset_seek_add {p q : Place} {front : List Char} (h : p.source = front ++ q.source) (n : Nat) :
    (p.seek (byteLength front + n)).offset = byteLength front + (q.seek n).offset := by
  have hskip := find?_offsets_append (n := byteLength front + n) (m := 0) front q.source (by omega)
  have htest : ((byteLength front + n ≤ ·) : Nat → Bool) ∘ (byteLength front + ·) = (n ≤ ·) := by
    funext m
    simp
  rw [Nat.zero_add, ← Nat.add_zero (byteLength front), offsets_add, List.find?_map,
    Nat.add_zero, htest] at hskip
  rw [offset_seek, offset_seek, h, hskip, byteLength_append]
  cases (offsets 0 q.source).find? (n ≤ ·) <;> rfl

private theorem charsUpTo_add (n stop offset : Nat) (taken cs : List Char) :
    charsUpTo (n + stop) (n + offset) taken cs = charsUpTo stop offset taken cs := by
  induction cs generalizing offset taken with
  | nil => rfl
  | cons c cs ih => simp only [charsUpTo, Nat.add_le_add_iff_left, Nat.add_assoc, ih]

theorem textTo_add {p q : Place} {n : Nat} (hrest : p.rest = q.rest) (hoffset : p.offset = n + q.offset)
    (stop : Nat) : p.textTo (n + stop) = q.textTo stop := by
  rw [textTo, textTo, hrest, hoffset, charsUpTo_add]

end Place

end PegGrammar
