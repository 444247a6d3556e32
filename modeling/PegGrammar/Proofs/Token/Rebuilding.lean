import PegGrammar.Token.Walk

/-!
# A walk determines its chain

A walk says of every token how deep it lies, and that is enough to find the chain again. What is put together lies in
levels, one for each depth; a token goes to the level of its depth, after all deeper levels were closed. So the tokens
of a chain end up on the level of their depth, in front of those that were there, and what lies below them waits on
deeper levels until something comes that is not below them. Closing these levels later is the same as closing them at
once.
-/

namespace PegGrammar

namespace Walk

theorem length_closeLevel (level : Level) (levels : List Level) : (closeLevel level levels).length = levels.length := by
  cases levels with
  | nil => rfl
  | cons siblings levels => cases siblings <;> rfl

theorem closeTo_of_length_le {keep : Nat} {levels : List Level} (h : levels.length ≤ keep) :
    closeTo keep levels.length levels = levels := by
  cases levels with
  | nil => rw [closeTo]
  | cons level levels => rw [closeTo, if_neg (Nat.not_lt.2 h)]

theorem closeTo_cons {keep : Nat} {level : Level} {levels : List Level} (h : keep ≤ levels.length) :
    closeTo keep (level :: levels).length (level :: levels) =
      closeTo keep (closeLevel level levels).length (closeLevel level levels) := by
  have hlt : keep < (level :: levels).length := Nat.lt_succ_of_le h
  rw [closeTo, if_pos hlt, length_closeLevel]
  rfl

theorem length_closeTo (keep : Nat) (levels : List Level) :
    (closeTo keep levels.length levels).length = min levels.length keep := by
  induction hn : levels.length generalizing levels with
  | zero =>
    rw [List.length_eq_zero_iff.1 hn, closeTo]
    rfl
  | succ n ih =>
    rw [← hn]
    obtain hlt | hle := Nat.lt_or_ge keep levels.length
    · obtain ⟨level, outer, rfl⟩ := List.exists_cons_of_length_eq_add_one hn
      have houter : (closeLevel level outer).length = n := (length_closeLevel level outer).trans (Nat.succ.inj hn)
      have hkeep : keep ≤ outer.length := Nat.le_of_lt_succ hlt
      have hinner := ih _ houter
      rw [← houter, length_closeLevel, Nat.min_eq_right hkeep] at hinner
      rw [closeTo_cons hkeep, length_closeLevel, hinner, Nat.min_eq_right (Nat.le_of_lt hlt)]
    · rw [closeTo_of_length_le hle, Nat.min_eq_left hle]

theorem closeTo_closeTo {keep more : Nat} (h : keep ≤ more) (levels : List Level) :
    closeTo keep (closeTo more levels.length levels).length (closeTo more levels.length levels) =
      closeTo keep levels.length levels := by
  induction hn : levels.length generalizing levels with
  | zero =>
    rw [List.length_eq_zero_iff.1 hn, closeTo, List.length_nil]
  | succ n ih =>
    rw [← hn]
    obtain hlt | hle := Nat.lt_or_ge more levels.length
    · obtain ⟨level, outer, rfl⟩ := List.exists_cons_of_length_eq_add_one hn
      have houter : (closeLevel level outer).length = n := (length_closeLevel level outer).trans (Nat.succ.inj hn)
      have hmore : more ≤ outer.length := Nat.le_of_lt_succ hlt
      have hinner := ih _ houter
      rw [← houter] at hinner
      rw [closeTo_cons hmore, closeTo_cons (Nat.le_trans h hmore), hinner]
    · rw [closeTo_of_length_le hle]

/-- Below some depth all is closed: then the tokens of that depth are on one level, and those around them on the
others. There may be no level yet for none. -/
structure ClosedAt (depth : Nat) (levels : List Level) (level : Level) (outer : List Level) : Prop where
  length : outer.length = depth
  closed : closeTo (depth + 1) levels.length levels = level :: outer ∨
    level = [] ∧ closeTo (depth + 1) levels.length levels = outer

theorem rebuildFrom_cons {depth : Nat} {levels outer : List Level} {level : Level}
    (h : ClosedAt depth levels level outer) (piece : Piece) (walk : Walk) :
    rebuildFrom levels.length levels ((depth, piece) :: walk) =
      rebuildFrom (depth + 1) ((⟨piece, []⟩ :: level) :: outer) walk := by
  have hcount := length_closeTo (depth + 1) levels
  rw [rebuildFrom, ← hcount]
  obtain hopen | ⟨rfl, hfresh⟩ := h.closed
  · rw [hopen]
    dsimp only
    rw [List.length_cons, h.length, if_pos rfl]
  · rw [hfresh, h.length]
    cases outer with
    | nil =>
      cases h.length
      rfl
    | cons around outer =>
      dsimp only
      rw [if_neg (Nat.ne_of_lt (Nat.lt_succ_self depth))]

end Walk

namespace Token

open Walk

mutual

theorem rebuilds_token {depth : Nat} {levels outer : List Level} {level : Level}
    (h : ClosedAt depth levels level outer) : (token : Token) →
      ∃ levels', (∀ walk, rebuildFrom levels.length levels (token.preorder depth ++ walk) =
          rebuildFrom levels'.length levels' walk) ∧
        ClosedAt depth levels' (token :: level) outer
  | ⟨piece, children⟩ => by
    have hfresh : ClosedAt (depth + 1) ((⟨piece, []⟩ :: level) :: outer) [] ((⟨piece, []⟩ :: level) :: outer) := by
      have hlength : ((⟨piece, []⟩ :: level) :: outer).length = depth + 1 := congrArg Nat.succ h.length
      exact ⟨hlength, .inr ⟨rfl, closeTo_of_length_le (hlength ▸ Nat.le_succ _)⟩⟩
    obtain ⟨levels', hwalk, hchildren⟩ := rebuilds_chain hfresh children
    refine ⟨levels', fun walk => ?_, h.length, .inl ?_⟩
    · rw [preorder, List.cons_append, rebuildFrom_cons h, ← hwalk, List.length_cons, h.length]
    · rw [← closeTo_closeTo (Nat.le_succ (depth + 1))]
      obtain hclosed | ⟨hnone, hclosed⟩ := hchildren.closed
      · rw [hclosed, closeTo_cons (Nat.le_of_eq hchildren.length.symm), closeLevel, List.append_nil,
          List.reverse_reverse]
        exact closeTo_of_length_le (Nat.le_of_eq hchildren.length)
      · rw [List.append_nil, List.reverse_eq_nil_iff] at hnone
        rw [hclosed, hnone]
        exact closeTo_of_length_le (Nat.le_of_eq hchildren.length)

theorem rebuilds_chain {depth : Nat} {levels outer : List Level} {level : Level}
    (h : ClosedAt depth levels level outer) : (chain : Chain) →
      ∃ levels', (∀ walk, rebuildFrom levels.length levels (preorderOfChain depth chain ++ walk) =
          rebuildFrom levels'.length levels' walk) ∧
        ClosedAt depth levels' (chain.reverse ++ level) outer
  | [] => ⟨levels, fun _ => rfl, h⟩
  | token :: chain => by
    obtain ⟨mid, htoken, hmid⟩ := rebuilds_token h token
    obtain ⟨levels', hchain, hlast⟩ := rebuilds_chain hmid chain
    refine ⟨levels', fun walk => ?_, ?_⟩
    · rw [preorderOfChain, List.append_assoc, htoken, hchain]
    · rw [List.reverse_cons, List.append_assoc]
      exact hlast

end

/-- A chain is put together again from its walk. -/
theorem rebuild_walk (chain : Chain) : rebuild (walk chain) = chain := by
  have hstart : ClosedAt 0 [] [] [] := ⟨rfl, .inr ⟨rfl, by rw [closeTo]⟩⟩
  obtain ⟨levels, hwalk, hlast⟩ := rebuilds_chain hstart chain
  have hrebuilt : rebuild (walk chain) = ((closeTo 1 levels.length levels).headD []).reverse := by
    have hend := hwalk []
    rw [List.append_nil, List.length_nil] at hend
    rw [rebuild, walk_eq, hend, rebuildFrom]
  rw [hrebuilt]
  rw [List.append_nil] at hlast
  obtain hclosed | ⟨hnone, hclosed⟩ := hlast.closed
  · rw [hclosed, List.headD_cons, List.reverse_reverse]
  · rw [hclosed, List.reverse_eq_nil_iff.1 hnone]
    rfl

/-- Chains are the same exactly if their walks are, token by token, and a copy of a chain that is put together from
its walk is that chain. -/
theorem walk_determines_chain (a b : Chain) : (sameChain a b = true ↔ a = b) ∧ copy a = a := by
  refine ⟨?_, rebuild_walk a⟩
  rw [sameChain, beq_iff_eq]
  constructor
  · intro h
    rw [← rebuild_walk a, h, rebuild_walk b]
  · exact congrArg walk

end Token

end PegGrammar
