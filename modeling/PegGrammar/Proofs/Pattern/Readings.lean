import PegGrammar.Pattern.Reader
import PegGrammar.Proofs.Pattern.Looks
import PegGrammar.Proofs.Pattern.Sets

/-!
# Two patterns side by side

A pattern is read by itself, and the same pattern is read in the full notation with something around it: then
there are further groups that are open, and a closing parenthesis may stand behind the pattern. If both can be
read to the end, each step takes the same part of both, and what was read asserts the same in both. So the
groups around the pattern stay as they are until it ends, whatever they are.

The one difference that would not be seen at once is a word edge in front of braces, which the full notation
may take together. Then the braces that are left to the other reader begin no repetition, and it fails.
-/

namespace PegGrammar.Pattern

variable {tail cs cs' rest rest' : List Char} {f f' : Flags} {edition : Edition}

/-! ### Repetitions -/

theorem dropBlanks_brace (f : Flags) (cs : List Char) : dropBlanks f ('\x7b' :: cs) = '\x7b' :: cs := by
  have hblank : isBlank '\x7b' = false := by decide +kernel
  rw [dropBlanks]
  split
  · rw [dropBlanksFrom, if_neg Bool.false_ne_true, hblank, if_neg Bool.false_ne_true, if_neg (by decide)]
  · rfl

theorem decimal?_of_letter {c : Char} (hc : (c.isAlpha || decide (c = '-')) = true) (f : Flags)
    (cs : List Char) : (decimal? f (c :: cs)).1 = none := by
  have hascii : ∀ n < 128, ((Char.ofNat n).isAlpha || decide (Char.ofNat n = '-')) = true →
      isBlank (Char.ofNat n) = false ∧ (Char.ofNat n).isDigit = false := by decide +kernel
  have hlt : c.toNat < 128 := by
    change ((decide (c.val ≥ 'A'.val ∧ c.val ≤ 'Z'.val) ||
      (decide (c.val ≥ 'a'.val) && decide (c.val ≤ 'z'.val))) || decide (c = '-')) = true at hc
    simp only [Bool.or_eq_true, Bool.and_eq_true, decide_eq_true_eq, UInt32.le_iff_toNat_le, ge_iff_le] at hc
    rcases hc with (⟨-, hle⟩ | ⟨-, hle⟩) | rfl
    · exact Nat.lt_of_le_of_lt hle (by decide)
    · exact Nat.lt_of_le_of_lt hle (by decide)
    · decide
  obtain ⟨hblank, hdigit⟩ := hascii c.toNat hlt (by rwa [Char.ofNat_toNat])
  rw [Char.ofNat_toNat] at hblank hdigit
  have hfront : (c :: cs).dropWhile isBlank = c :: cs := by
    rw [List.dropWhile_cons, hblank, if_neg Bool.false_ne_true]
  have htaken : takeDigits f Char.isDigit (c :: cs).length (c :: cs) = ([], c :: cs) := by
    rw [List.length_cons, takeDigits, hdigit, if_neg Bool.false_ne_true]
  rw [decimal?, hfront, htaken]
  rfl

theorem counts?_of_named (h : Named f cs) : counts? f cs = none := by
  obtain ⟨c, rest, hcs, hc⟩ := h
  have hnone := decimal?_of_letter hc f rest
  rw [counts?, hcs]
  generalize decimal? f (c :: rest) = number at hnone ⊢
  obtain ⟨first, rest⟩ := number
  cases (hnone : first = none)
  dsimp only
  split
  · split
    · rfl
    · split <;> rfl
  · rfl
  · rfl

theorem counts?_behind (htail : Closes tail) (hf : f.Alike f') (h : Behind tail cs cs')
    {counts counts' : Nat × Option Nat × List Char} (hcounts : counts? f cs = some counts)
    (hcounts' : counts? f' cs' = some counts') : Behind tail counts.2.2 counts'.2.2 := by
  obtain ⟨-, hstart⟩ := decimal?_behind htail hf (h.dropBlanks htail hf)
  rw [counts?] at hcounts hcounts'
  generalize decimal? f (dropBlanks f cs) = number at hstart hcounts
  generalize decimal? f' (dropBlanks f' cs') = number' at hstart hcounts'
  obtain ⟨first, rest⟩ := number
  obtain ⟨first', rest'⟩ := number'
  dsimp only at hstart hcounts hcounts'
  split at hcounts
  · rename_i rest
    obtain ⟨rest', rfl, hrest⟩ := hstart.cons
    have hnext := hrest.dropBlanks htail hf
    split at hcounts'
    rotate_left
    · rename_i heq
      cases heq
    · rename_i hcomma _
      exact (hcomma _ rfl).elim
    rename_i heq
    cases heq
    split at hcounts
    · rename_i hbrace
      rw [hbrace] at hnext
      obtain ⟨ds, hbrace', hds⟩ := hnext.cons
      split at hcounts'
      · rename_i heq
        cases hbrace'.symm.trans heq
        obtain ⟨_, -, hcounts⟩ := Option.bind_eq_some_iff.1 hcounts
        obtain ⟨_, -, hcounts'⟩ := Option.bind_eq_some_iff.1 hcounts'
        cases hcounts
        cases hcounts'
        exact hds
      · rename_i hother
        exact (hother ds hbrace').elim
    · rename_i hother
      split at hcounts'
      · rename_i heq
        rw [heq] at hnext
        obtain ⟨ds, hbrace, -⟩ := hnext.cons' htail (by decide)
        exact (hother ds hbrace).elim
      · obtain ⟨-, hlast⟩ := decimal?_behind htail hf hnext
        split at hcounts
        · rename_i hclosed
          rw [hclosed] at hlast
          obtain ⟨ds, hclosed', hds⟩ := hlast.cons
          split at hcounts'
          · rename_i heq
            cases hclosed'.symm.trans heq
            obtain ⟨_, -, hcounts⟩ := Option.bind_eq_some_iff.1 hcounts
            obtain ⟨_, -, hcounts'⟩ := Option.bind_eq_some_iff.1 hcounts'
            obtain ⟨_, -, hcounts⟩ := Option.bind_eq_some_iff.1 hcounts
            obtain ⟨_, -, hcounts'⟩ := Option.bind_eq_some_iff.1 hcounts'
            split at hcounts
            · split at hcounts'
              · cases hcounts
                cases hcounts'
                exact hds
              · cases hcounts'
            · cases hcounts
          · cases hcounts'
        · cases hcounts
  · obtain ⟨rest', rfl, hrest⟩ := hstart.cons
    obtain ⟨_, -, hcounts⟩ := Option.bind_eq_some_iff.1 hcounts
    obtain ⟨_, -, hcounts'⟩ := Option.bind_eq_some_iff.1 hcounts'
    cases hcounts
    cases hcounts'
    exact hrest
  · cases hcounts

/-! ### What follows an opening parenthesis -/

theorem Flags.Alike.set (hf : f.Alike f') {flag : Char} {value : Bool} {g g' : Flags}
    (hset : f.set edition flag value = some g) (hset' : f'.set .full flag value = some g') : g.Alike g' := by
  obtain ⟨hcaseless, hmulti, hgreed, hunicode, hcrlf, hspaced⟩ := hf
  rw [Flags.set.eq_def] at hset hset'
  split at hset
  case h_7 =>
    split at hset
    · cases hset
      cases hset'
      exact ⟨hcaseless, hmulti, hgreed, hunicode, rfl, hspaced⟩
    · cases hset
  case h_8 => cases hset
  all_goals
    cases hset
    cases hset'
    constructor <;> first | rfl | assumption

theorem readFlags_behind {steps steps' : Nat} (hf : f.Alike f') {seen : List Char} {on : Bool}
    (h : Behind tail cs cs') {g g' : Flags} {named named' opens opens' : Bool}
    (hread : readFlags edition steps f seen on cs = some (g, named, opens, rest))
    (hread' : readFlags .full steps' f' seen on cs' = some (g', named', opens', rest')) :
    g.Alike g' ∧ named' = named ∧ opens' = opens ∧ Behind tail rest rest' := by
  induction steps generalizing steps' f f' seen on cs cs' with
  | zero => cases hread
  | succ steps ih =>
    cases steps' with
    | zero => cases hread'
    | succ steps' =>
      cases cs with
      | nil => cases hread
      | cons c cs =>
        obtain ⟨cs', rfl, hcs⟩ := h.cons
        rw [readFlags] at hread hread'
        split at hread
        · rw [if_pos ‹_›] at hread'
          split at hread
          · cases hread
          · rw [if_neg ‹_›] at hread'
            cases hread
            cases hread'
            exact ⟨hf, rfl, rfl, hcs⟩
        rw [if_neg ‹_›] at hread'
        split at hread
        · cases hread
        rw [if_neg ‹_›] at hread'
        split at hread
        · rw [if_pos ‹_›] at hread'
          exact ih hf hcs hread hread'
        rw [if_neg ‹_›] at hread'
        split at hread
        · rename_i hset
          split at hread'
          · rename_i hset'
            exact ih (hf.set hset hset') hcs hread hread'
          · cases hread'
        · cases hread

theorem groupName?_behind (htail : Closes tail) (h : Behind tail cs cs') {name name' : List Char}
    (hname : groupName? edition cs = some (name, rest))
    (hname' : groupName? .full cs' = some (name', rest')) : Behind tail rest rest' := by
  have hspan := span_behind htail h (· ≠ '>') rfl
  rw [groupName?] at hname hname'
  generalize cs.span (· ≠ '>') = taken at hspan hname
  generalize cs'.span (· ≠ '>') = taken' at hspan hname'
  obtain ⟨before, after⟩ := taken
  obtain ⟨before', after'⟩ := taken'
  split at hname
  · rename_i heq
    cases heq
    split at hname'
    · rename_i heq
      cases heq
      rcases hspan with ⟨hnil, -⟩ | ⟨-, hrest⟩
      · cases hnil
      · obtain ⟨ds, heq, hds⟩ := hrest.cons
        cases heq
        split at hname
        · split at hname'
          · cases hname
            cases hname'
            exact hds
          · cases hname'
        · cases hname
    · cases hname'
  · cases hname

/-- The same is opened, with flags that are alike. -/
inductive Opening.Alike : Opening → Opening → Prop
  | flags {set set' : Flags} (h : set.Alike set') : Alike (.flags set) (.flags set')
  | plain {set set' : Flags} (h : set.Alike set') : Alike (.plain set) (.plain set')
  | group {set set' : Flags} (h : set.Alike set') (name name' : Option (List Char)) :
      Alike (.group set name) (.group set' name')

theorem Opening.behind_named (htail : Closes tail) (hf : f.Alike f') (h : Behind tail cs cs')
    {opening opening' : Opening}
    (hopening : (groupName? edition cs).map (fun (name, rest) => (Opening.group f (some name), rest)) =
      some (opening, rest))
    (hopening' : (groupName? .full cs').map (fun (name, rest) => (Opening.group f' (some name), rest)) =
      some (opening', rest')) : opening.Alike opening' ∧ Behind tail rest rest' := by
  obtain ⟨⟨name, rest⟩, hname, heq⟩ := Option.map_eq_some_iff.1 hopening
  obtain ⟨⟨name', rest'⟩, hname', heq'⟩ := Option.map_eq_some_iff.1 hopening'
  cases heq
  cases heq'
  exact ⟨.group hf _ _, groupName?_behind htail h hname hname'⟩

theorem opening?_behind (htail : Closes tail) (hf : f.Alike f') (h : Behind tail cs cs')
    {opening opening' : Opening} (hopening : opening? edition f cs = some (opening, rest))
    (hopening' : opening? .full f' cs' = some (opening', rest')) :
    opening.Alike opening' ∧ Behind tail rest rest' := by
  have hstart := h.dropBlanks htail hf
  rw [opening?] at hopening hopening'
  generalize dropBlanks f cs = inner at hstart hopening
  generalize dropBlanks f' cs' = inner' at hstart hopening'
  split at hopening
  · cases hopening
  · cases hopening
  · cases hopening
  · cases hopening
  · obtain ⟨ds, rfl, hds⟩ := hstart.cons
    obtain ⟨es, rfl, hes⟩ := hds.cons
    obtain ⟨inner', rfl, hinner⟩ := hes.cons
    exact Opening.behind_named htail hf hinner hopening hopening'
  · obtain ⟨ds, rfl, hds⟩ := hstart.cons
    obtain ⟨inner', rfl, hinner⟩ := hds.cons
    split at hopening
    · split at hopening'
      case h_6 =>
        rename_i heq
        cases heq
        exact Opening.behind_named htail hf hinner hopening hopening'
      case h_7 =>
        rename_i hname heq
        cases heq
        exact (hname _ rfl).elim
      case h_8 =>
        rename_i hname _
        exact (hname _ rfl).elim
      all_goals first
        | cases hopening'
        | (rename_i heq; cases heq)
    · cases hopening
  · rename_i hlong hshort
    obtain ⟨inner', rfl, hinner⟩ := hstart.cons
    split at hopening'
    case h_5 =>
      rename_i heq
      cases heq
      obtain ⟨ds, rfl, hds⟩ := hinner.cons' htail (by decide)
      obtain ⟨es, rfl, -⟩ := hds.cons' htail (by decide)
      exact (hlong es rfl).elim
    case h_6 =>
      rename_i heq
      cases heq
      obtain ⟨ds, rfl, -⟩ := hinner.cons' htail (by decide)
      exact (hshort ds rfl).elim
    case h_7 =>
      rename_i heq
      cases heq
      obtain ⟨⟨set, named, opens, rest⟩, hread, hopening⟩ := Option.bind_eq_some_iff.1 hopening
      obtain ⟨⟨set', named', opens', rest'⟩, hread', hopening'⟩ := Option.bind_eq_some_iff.1 hopening'
      obtain ⟨hset, rfl, rfl, hrest⟩ := readFlags_behind hf hinner hread hread'
      dsimp only at hopening hopening'
      split at hopening
      · rw [if_pos ‹_›] at hopening'
        cases hopening
        cases hopening'
        exact ⟨.plain hset, hrest⟩
      rw [if_neg ‹_›] at hopening'
      split at hopening
      · rw [if_pos ‹_›] at hopening'
        cases hopening
        cases hopening'
        exact ⟨.flags hset, hrest⟩
      · cases hopening
    case h_8 =>
      rename_i hflags
      exact (hflags _ rfl).elim
    all_goals cases hopening'
  · rename_i hflags
    cases hopening
    split at hopening'
    case h_8 =>
      cases hopening'
      exact ⟨.group hf _ _, hstart⟩
    all_goals
      obtain ⟨ds, rfl, -⟩ := hstart.cons' htail (by decide)
      exact (hflags ds rfl).elim

/-! ### What was read -/

def Part.looks (p : Part) : List Look := p.node.looks

theorem Node.looksOfAll_eq_flatMap (nodes : List Node) : looksOfAll nodes = nodes.flatMap looks := by
  induction nodes with
  | nil => rfl
  | cons node nodes ih => rw [looksOfAll, ih, List.flatMap_cons]

theorem Node.looks_sequence (nodes : List Node) : (sequence nodes).looks = nodes.flatMap looks := by
  match nodes with
  | [] => rfl
  | [node] => exact (List.flatMap_singleton looks node).symm
  | first :: second :: nodes => exact looksOfAll_eq_flatMap _

theorem Node.looks_oneOf (nodes : List Node) : (oneOf nodes).looks = nodes.flatMap looks := by
  match nodes with
  | [] => rfl
  | [node] => exact (List.flatMap_singleton looks node).symm
  | first :: second :: nodes => exact looksOfAll_eq_flatMap _

theorem Node.flatMap_looks_filter (nodes : List Node) :
    (nodes.filter (fun node => !node.isEmpty)).flatMap looks = nodes.flatMap looks := by
  induction nodes with
  | nil => rfl
  | cons node nodes ih =>
    rw [List.filter_cons]
    split
    · rw [List.flatMap_cons, List.flatMap_cons, ih]
    · rename_i hempty
      cases node with
      | empty => exact ih
      | _ => exact (hempty rfl).elim

theorem Group.looks_branch (g : Group) : g.branch.looks = g.items.reverse.flatMap Part.looks := by
  rw [branch, Part.looks]
  dsimp only
  rw [Node.looks_sequence, Node.flatMap_looks_filter, List.flatMap_map]
  rfl

theorem Group.looks_whole (g : Group) :
    g.whole.looks = g.branches.reverse.flatMap Part.looks ++ g.items.reverse.flatMap Part.looks := by
  rw [whole.eq_def]
  split
  · rename_i hbranches
    rw [looks_branch, hbranches]
    rfl
  · rw [Part.looks]
    dsimp only
    rw [Node.looks_oneOf, List.flatMap_map, List.reverse_cons, List.flatMap_append, List.flatMap_singleton]
    change _ ++ g.branch.looks = _
    rw [looks_branch]
    rfl

/-- Two groups of which the same was read, with flags that are alike. -/
structure Group.Alike (g g' : Group) : Prop where
  branches : g'.branches.map Part.looks = g.branches.map Part.looks
  items : g'.items.map Part.looks = g.items.map Part.looks
  flags : g.flags.Alike g'.flags

theorem Group.Alike.looks_whole {g g' : Group} (h : g.Alike g') : g'.whole.looks = g.whole.looks := by
  have hparts : ∀ {parts parts' : List Part}, parts'.map Part.looks = parts.map Part.looks →
      parts'.reverse.flatMap Part.looks = parts.reverse.flatMap Part.looks := by
    intro parts parts' hmap
    rw [List.flatMap_def, List.flatMap_def, List.map_reverse, List.map_reverse, hmap]
  rw [Group.looks_whole, Group.looks_whole, hparts h.branches, hparts h.items]

theorem Group.Alike.add {g g' : Group} (h : g.Alike g') {p p' : Part} (hp : p'.looks = p.looks) :
    (g.add p).Alike (g'.add p') :=
  ⟨h.branches, congrArg₂ List.cons hp h.items, h.flags⟩

theorem Group.Alike.nextBranch {g g' : Group} (h : g.Alike g') : g.nextBranch.Alike g'.nextBranch := by
  have hbranch : g'.branch.looks = g.branch.looks := by
    rw [looks_branch, looks_branch, List.flatMap_def, List.flatMap_def, List.map_reverse, List.map_reverse,
      h.items]
  exact ⟨congrArg₂ List.cons hbranch h.branches, rfl, h.flags⟩

theorem Group.alike_start {flags flags' : Flags} (h : flags.Alike flags') (number number' : Option Nat) :
    (Group.start flags number).Alike (Group.start flags' number') :=
  ⟨rfl, rfl, h⟩

theorem Group.Alike.repeated (htail : Closes tail) {g g' next next' : Group} (hg : g.Alike g')
    (h : Behind tail cs cs') {min min' : Nat} {max max' : Option Nat}
    (hnext : repeatLast? g min max cs = some (next, rest))
    (hnext' : repeatLast? g' min' max' cs' = some (next', rest')) :
    next.Alike next' ∧ Behind tail rest rest' := by
  rw [repeatLast?.eq_def] at hnext hnext'
  split at hnext
  · cases hnext
  rename_i last items hitems
  split at hnext'
  · cases hnext'
  rename_i last' items' hitems'
  split at hnext
  · split at hnext'
    · obtain ⟨hlast, hinit⟩ : last'.looks = last.looks ∧ items'.map Part.looks = items.map Part.looks := by
        have hmap := hg.items
        rw [hitems, hitems', List.map_cons, List.map_cons, List.cons.injEq] at hmap
        exact hmap
      cases hnext
      cases hnext'
      refine ⟨⟨hg.branches, congrArg₂ List.cons hlast hinit, hg.flags⟩, ?_⟩
      split
      · obtain ⟨ds, rfl, hds⟩ := h.cons
        exact hds
      · rename_i hplain
        split
        · obtain ⟨ds, rfl, -⟩ := h.cons' htail (by decide)
          exact (hplain ds rfl).elim
        · exact h
    · cases hnext'
  · cases hnext

/-! ### Steps -/

theorem looks_of_charNode? {flags : Flags} {c : Char} {byte : Bool} {node : Node}
    (h : charNode? edition flags c byte = some node) : node.looks = [] := by
  rw [charNode?] at h
  dsimp only at h
  repeat' split at h
  all_goals cases h
  all_goals rfl

theorem looks_of_dotNode? {flags : Flags} {node : Node} (h : dotNode? flags = some node) :
    node.looks = [] := by
  rw [dotNode?] at h
  repeat' split at h
  all_goals cases h
  all_goals rfl

theorem Flags.Alike.caretLook (hf : f.Alike f') : Pattern.caretLook f' = Pattern.caretLook f := by
  rw [Pattern.caretLook, Pattern.caretLook, hf.multiLine, hf.crlf]

theorem Flags.Alike.dollarLook (hf : f.Alike f') : Pattern.dollarLook f' = Pattern.dollarLook f := by
  rw [Pattern.dollarLook, Pattern.dollarLook, hf.multiLine, hf.crlf]

/-- What is left to a reader begins with braces that begin no repetition. -/
def Stuck (f : Flags) (cs : List Char) : Prop := ∃ inner, cs = '\x7b' :: inner ∧ Named f inner

theorem single?_behind (htail : Closes tail) (hf : f.Alike f') (h : Behind tail cs cs') {c : Char}
    {node node' : Node} (hsingle : single? edition f (c :: cs) = some (node, rest))
    (hsingle' : single? .full f' (c :: cs') = some (node', rest')) :
    node'.looks = node.looks ∧ Behind tail rest rest' ∨ Stuck f rest := by
  have hchar : ∀ {c byte}, charNode? edition f c byte = some node →
      charNode? .full f' c byte = some node' → node'.looks = node.looks :=
    fun hnode hnode' => (looks_of_charNode? hnode').trans (looks_of_charNode? hnode).symm
  rw [single?.eq_def] at hsingle
  split at hsingle
  · cases hsingle
  · rename_i heq
    cases heq
    obtain ⟨_, hnode, heq⟩ := Option.map_eq_some_iff.1 hsingle
    obtain ⟨_, hnode', heq'⟩ := Option.map_eq_some_iff.1 (show (dotNode? f').map (·, cs') = _ from hsingle')
    cases heq
    cases heq'
    exact .inl ⟨(looks_of_dotNode? hnode').trans (looks_of_dotNode? hnode).symm, h⟩
  · rename_i heq
    cases heq
    cases hsingle
    cases hsingle'
    exact .inl ⟨congrArg ([·]) hf.caretLook, h⟩
  · rename_i heq
    cases heq
    cases hsingle
    cases hsingle'
    exact .inl ⟨congrArg ([·]) hf.dollarLook, h⟩
  · rename_i heq
    cases heq
    obtain ⟨⟨item, after⟩, hescape, hitem⟩ := Option.bind_eq_some_iff.1 hsingle
    obtain ⟨⟨item', after'⟩, hescape', hitem'⟩ := Option.bind_eq_some_iff.1 hsingle'
    rcases escape?_behind htail hf h hescape hescape' with ⟨halike, hafter⟩ | ⟨l, l', inner, heq, -, hnamed⟩
    · left
      dsimp only at halike hafter hitem hitem'
      cases halike with
      | char c byte =>
        obtain ⟨_, hnode, heq⟩ := Option.bind_eq_some_iff.1 hitem
        obtain ⟨_, hnode', heq'⟩ := Option.bind_eq_some_iff.1 hitem'
        cases heq
        cases heq'
        exact ⟨hchar hnode hnode', hafter⟩
      | set members members' =>
        cases hitem
        cases hitem'
        exact ⟨rfl, hafter⟩
      | look l =>
        cases hitem
        cases hitem'
        exact ⟨rfl, hafter⟩
    · cases heq
      cases hitem
      exact .inr ⟨inner, rfl, hnamed⟩
  · rename_i hdot hcaret hdollar hescape heq
    cases heq
    rw [single?.eq_def] at hsingle'
    split at hsingle'
    case h_6 =>
      rename_i heq
      cases heq
      obtain ⟨_, hnode, heq⟩ := Option.map_eq_some_iff.1 hsingle
      obtain ⟨_, hnode', heq'⟩ := Option.map_eq_some_iff.1 hsingle'
      cases heq
      cases heq'
      exact .inl ⟨hchar hnode hnode', h⟩
    case h_1 =>
      cases hsingle'
    all_goals
      rename_i heq
      cases heq
      contradiction

/-- Two readers that read the same and have the same open. -/
structure Reading.Alike (r r' : Reading) : Prop where
  group : r.group.Alike r'.group
  outer : List.Forall₂ Group.Alike r.outer r'.outer

section

variable {r r' next next' : Reading}

theorem step?_opening (edition : Edition) (r : Reading) (cs : List Char) :
    step? edition r '(' cs =
      match opening? edition r.group.flags cs with
      | none => none
      | some (.flags set, rest) =>
        some ({ r with group := { r.group.add ⟨.empty, 0, false⟩ with flags := set } }, rest)
      | some (.plain set, rest) =>
        some ({ r with group := .start set none, outer := r.group :: r.outer }, rest)
      | some (.group set name, rest) =>
        if name.any r.names.contains then none
        else
          some (⟨.start set (some (r.numbered + 1)), r.group :: r.outer, name.toList ++ r.names,
            r.numbered + 1⟩, rest) := rfl

theorem step?_closing (edition : Edition) (r : Reading) (cs : List Char) :
    step? edition r ')' cs =
      match r.outer with
      | [] => none
      | around :: outer =>
        some ({ r with
          group := around.add ⟨.group r.group.number r.group.whole.node, r.group.whole.depth + 1, true⟩,
          outer := outer }, cs) := rfl

theorem Reading.Alike.opened (htail : Closes tail) (hr : r.Alike r') (h : Behind tail cs cs')
    (hnext : step? edition r '(' cs = some (next, rest))
    (hnext' : step? .full r' '(' cs' = some (next', rest')) : next.Alike next' ∧ Behind tail rest rest' := by
  rw [step?_opening] at hnext hnext'
  cases hopening : opening? edition r.group.flags cs with
  | none =>
    rw [hopening] at hnext
    cases hnext
  | some found =>
    cases hopening' : opening? .full r'.group.flags cs' with
    | none =>
      rw [hopening'] at hnext'
      cases hnext'
    | some found' =>
      obtain ⟨opening, after⟩ := found
      obtain ⟨opening', after'⟩ := found'
      obtain ⟨halike, hafter⟩ := opening?_behind htail hr.group.flags h hopening hopening'
      rw [hopening] at hnext
      rw [hopening'] at hnext'
      cases halike with
      | flags hset =>
        cases hnext
        cases hnext'
        have hempty : Part.looks ⟨.empty, 0, false⟩ = Part.looks ⟨.empty, 0, false⟩ := rfl
        have hadd := hr.group.add hempty
        exact ⟨⟨⟨hadd.branches, hadd.items, hset⟩, hr.outer⟩, hafter⟩
      | plain hset =>
        cases hnext
        cases hnext'
        exact ⟨⟨Group.alike_start hset none none, .cons hr.group hr.outer⟩, hafter⟩
      | group hset name name' =>
        dsimp only at hnext hnext'
        split at hnext
        · cases hnext
        split at hnext'
        · cases hnext'
        cases hnext
        cases hnext'
        exact ⟨⟨Group.alike_start hset _ _, .cons hr.group hr.outer⟩, hafter⟩

theorem Reading.Alike.closed (hr : r.Alike r') (h : Behind tail cs cs')
    (hnext : step? edition r ')' cs = some (next, rest))
    (hnext' : step? .full r' ')' cs' = some (next', rest')) : next.Alike next' ∧ Behind tail rest rest' := by
  have houter := hr.outer
  rw [step?_closing] at hnext hnext'
  generalize r.outer = outer at houter hnext
  generalize r'.outer = outer' at houter hnext'
  cases houter with
  | nil => cases hnext
  | cons haround houter =>
    cases hnext
    cases hnext'
    exact ⟨⟨haround.add hr.group.looks_whole, houter⟩, h⟩

theorem Reading.Alike.outer_ne_nil (hr : r.Alike r') {c : Char}
    (hnext : step? edition r c cs = some (next, rest)) (hc : c = ')') : r'.outer ≠ [] := by
  subst hc
  intro hempty
  have houter := hr.outer
  rw [hempty, List.forall₂_nil_right_iff] at houter
  rw [step?_closing, houter] at hnext
  cases hnext

theorem Reading.Alike.repeated (htail : Closes tail) (hr : r.Alike r') (h : Behind tail cs cs')
    {min min' : Nat} {max max' : Option Nat}
    (hnext : (repeatLast? r.group min max cs).map (fun (group, rest) => ({ r with group }, rest)) =
      some (next, rest))
    (hnext' : (repeatLast? r'.group min' max' cs').map (fun (group, rest) => ({ r' with group }, rest)) =
      some (next', rest')) : next.Alike next' ∧ Behind tail rest rest' := by
  obtain ⟨⟨g, after⟩, hg, heq⟩ := Option.map_eq_some_iff.1 hnext
  obtain ⟨⟨g', after'⟩, hg', heq'⟩ := Option.map_eq_some_iff.1 hnext'
  cases heq
  cases heq'
  obtain ⟨hgroup, hrest⟩ := hr.group.repeated htail h hg hg'
  exact ⟨⟨hgroup, hr.outer⟩, hrest⟩

/-- Two readers take the same step, unless what is left to the one is no pattern. -/
theorem Reading.Alike.step (htail : Closes tail) (hr : r.Alike r') {c : Char} (h : Behind tail cs cs')
    (hnext : step? edition r c cs = some (next, rest))
    (hnext' : step? .full r' c cs' = some (next', rest')) :
    next.Alike next' ∧ Behind tail rest rest' ∨ Stuck next.group.flags rest := by
  have hf := hr.group.flags
  have hwhole := hnext
  rw [step?.eq_def] at hnext
  dsimp only at hnext
  split at hnext
  · exact .inl (hr.opened htail h hwhole hnext')
  · exact .inl (hr.closed h hwhole hnext')
  · cases hnext
    cases hnext'
    exact .inl ⟨⟨hr.group.nextBranch, hr.outer⟩, h⟩
  · obtain ⟨⟨found, after⟩, hfound, heq⟩ := Option.bind_eq_some_iff.1 hnext
    obtain ⟨⟨found', after'⟩, hfound', heq'⟩ := Option.bind_eq_some_iff.1 hnext'
    cases heq
    cases heq'
    exact .inl ⟨⟨hr.group.add rfl, hr.outer⟩, bracketed?_behind htail hf h hfound hfound'⟩
  · exact .inl (hr.repeated htail h hnext hnext')
  · exact .inl (hr.repeated htail h hnext hnext')
  · exact .inl (hr.repeated htail h hnext hnext')
  · obtain ⟨⟨min, max, after⟩, hcounts, hmap⟩ := Option.bind_eq_some_iff.1 hnext
    obtain ⟨⟨min', max', after'⟩, hcounts', hmap'⟩ := Option.bind_eq_some_iff.1 hnext'
    have hafter := counts?_behind htail hf h hcounts hcounts'
    exact .inl (hr.repeated htail (hafter.dropBlanks htail hf) hmap hmap')
  · rw [step?.eq_def] at hnext'
    dsimp only at hnext'
    split at hnext'
    case h_9 =>
      obtain ⟨⟨node, after⟩, hsingle, heq⟩ := Option.bind_eq_some_iff.1 hnext
      obtain ⟨⟨node', after'⟩, hsingle', heq'⟩ := Option.bind_eq_some_iff.1 hnext'
      cases heq
      cases heq'
      refine (single?_behind htail hf h hsingle hsingle').imp_left ?_
      rintro ⟨hlooks, hrest⟩
      exact ⟨⟨hr.group.add hlooks, hr.outer⟩, hrest⟩
    all_goals contradiction

theorem readFrom_stuck (h : Stuck r.group.flags cs) (steps : Nat) : readFrom edition steps r cs = none := by
  obtain ⟨inner, rfl, hnamed⟩ := h
  have hnone : step? edition r '\x7b' inner = none := by
    change (counts? r.group.flags inner).bind _ = none
    rw [counts?_of_named hnamed]
    rfl
  cases steps with
  | zero => rfl
  | succ steps =>
    rw [readFrom, dropBlanks_brace]
    dsimp only
    rw [hnone]

end

/-! ### Whole patterns -/

/-- A reader with further groups open around its own. -/
def Reading.over (r : Reading) (base : List Group) : Reading := { r with outer := r.outer ++ base }

theorem step?_over {r : Reading} {c : Char} (hcloses : c = ')' → r.outer ≠ []) (base : List Group)
    (cs : List Char) :
    step? edition (r.over base) c cs =
      (step? edition r c cs).map (fun (next, rest) => (next.over base, rest)) := by
  obtain ⟨group, outer, names, numbered⟩ := r
  change step? edition ⟨group, outer ++ base, names, numbered⟩ c cs = _
  rw [step?.eq_def, step?.eq_def]
  dsimp only at hcloses ⊢
  split
  · split
    · rfl
    · rfl
    · rfl
    · split <;> rfl
  · cases outer with
    | nil => exact (hcloses rfl rfl).elim
    | cons around outer => rfl
  · rfl
  · cases bracketed? edition group.flags cs <;> rfl
  · cases repeatLast? group 0 (some 1) cs <;> rfl
  · cases repeatLast? group 0 none cs <;> rfl
  · cases repeatLast? group 1 none cs <;> rfl
  · cases counts? group.flags cs with
    | none => rfl
    | some counts =>
      obtain ⟨min, max, rest⟩ := counts
      dsimp only [Option.bind_some, bind]
      cases repeatLast? group min max (dropBlanks group.flags rest) <;> rfl
  · cases single? edition group.flags (_ :: cs) <;> rfl

theorem readFrom_over (edition : Edition) {r : Reading} {c : Char} (hcs : dropBlanks r.group.flags cs = c :: cs')
    (hcloses : c = ')' → r.outer ≠ []) (base : List Group) (steps : Nat) :
    readFrom edition (steps + 1) (r.over base) cs =
      match step? edition r c cs' with
      | some (next, rest) => readFrom edition steps (next.over base) rest
      | none => none := by
  have hgroup : (r.over base).group = r.group := rfl
  rw [readFrom, hgroup, hcs]
  dsimp only
  rw [step?_over hcloses]
  cases step? edition r c cs' <;> rfl

/-- A pattern that can be read by itself ends where it should when something is around it: no group but its
own are closed, and what was read of it asserts the same. -/
theorem readFrom_alike (htail : Closes tail) {steps steps' : Nat} {r r' : Reading} (hr : r.Alike r')
    (h : Behind tail cs cs') {base : List Group} {whole whole' : Part}
    (hread : readFrom edition steps r cs = some whole)
    (hread' : readFrom .full steps' (r'.over base) cs' = some whole') :
    ∃ (g : Group) (last : Reading) (steps'' : Nat) (rest : List Char),
      whole = g.whole ∧ last.outer = [] ∧ g.Alike last.group ∧
      Behind tail [] (dropBlanks last.group.flags rest) ∧
      ∀ base, readFrom .full steps' (r'.over base) cs' = readFrom .full steps'' (last.over base) rest := by
  induction steps generalizing steps' r r' cs cs' with
  | zero => cases hread
  | succ steps ih =>
    cases steps' with
    | zero => cases hread'
    | succ steps' =>
      have hstart := h.dropBlanks htail hr.group.flags
      rw [readFrom] at hread
      split at hread
      · rename_i hnil
        rw [hnil] at hstart
        split at hread
        · rename_i houter
          cases hread
          refine ⟨r.group, r', steps' + 1, cs', rfl, ?_, hr.group, hstart, fun _ => rfl⟩
          have hempty := hr.outer
          rw [List.isEmpty_iff.1 houter] at hempty
          exact List.forall₂_nil_left_iff.1 hempty
        · cases hread
      · rename_i c ds hcons
        rw [hcons] at hstart
        obtain ⟨ds', hcons', hds⟩ := hstart.cons
        split at hread
        · rename_i next rest hnext
          have hstep := fun base => readFrom_over .full hcons' (hr.outer_ne_nil hnext) base steps'
          rw [hstep] at hread'
          cases hnext' : step? .full r' c ds' with
          | none =>
            rw [hnext'] at hread'
            cases hread'
          | some found' =>
            obtain ⟨next', rest'⟩ := found'
            rw [hnext'] at hread' hstep
            rcases hr.step htail hds hnext hnext' with ⟨halike, hrest⟩ | hstuck
            · obtain ⟨g, last, steps'', after, hwhole, houter, hgroup, hafter, hruns⟩ :=
                ih halike hrest hread hread'
              exact ⟨g, last, steps'', after, hwhole, houter, hgroup, hafter,
                fun base => (hstep base).trans (hruns base)⟩
            · rw [readFrom_stuck hstuck] at hread
              cases hread
        · cases hread

theorem Flags.Alike.refl (f : Flags) : f.Alike f := ⟨rfl, rfl, rfl, rfl, rfl, rfl⟩

theorem Reading.alike_start (names : List (List Char)) (numbered : Nat) (h : f.Alike f') :
    (⟨.start f none, [], [], 0⟩ : Reading).Alike ⟨.start f' none, [], names, numbered⟩ :=
  ⟨Group.alike_start h none none, .nil⟩

theorem parse?_eq_some {text : String} {tree : Node} (h : parse? edition text = some tree) :
    ∃ whole,
      readFrom edition (text.toList.length + 1) ⟨.start .initial none, [], [], 0⟩ text.toList = some whole ∧
      whole.depth ≤ maxNesting ∧ whole.node = tree := by
  obtain ⟨whole, hread, hwhole⟩ := Option.bind_eq_some_iff.1 h
  split at hwhole
  · exact ⟨whole, hread, ‹_›, Option.some.inj hwhole⟩
  · cases hwhole

/-- A pattern of two editions asserts the same in both. -/
theorem looks_of_parse? {text : String} {tree tree' : Node} (h : parse? edition text = some tree)
    (h' : parse? .full text = some tree') : tree'.looks = tree.looks := by
  obtain ⟨whole, hread, -, rfl⟩ := parse?_eq_some h
  obtain ⟨whole', hread', -, rfl⟩ := parse?_eq_some h'
  have hsame : Behind [] text.toList text.toList := .inl (List.append_nil _).symm
  have halone : (⟨.start .initial none, [], [], 0⟩ : Reading) =
      (⟨.start .initial none, [], [], 0⟩ : Reading).over [] := rfl
  rw [halone] at hread'
  obtain ⟨g, last, steps, rest, rfl, houter, hgroup, hrest, hruns⟩ :=
    readFrom_alike (.inl rfl) (Reading.alike_start [] 0 (.refl .initial)) hsame hread hread'
  have hnil : dropBlanks last.group.flags rest = [] := hrest.elim id And.right
  have hends : readFrom .full steps (last.over []) rest = some whole' := (hruns []).symm.trans hread'
  cases steps with
  | zero => cases hends
  | succ steps =>
    have hempty : (last.over []).outer = [] := by rw [Reading.over, houter, List.append_nil]
    have hflags : (last.over []).group = last.group := rfl
    rw [readFrom, hflags, hnil, hempty] at hends
    cases hends
    exact hgroup.looks_whole

end PegGrammar.Pattern
