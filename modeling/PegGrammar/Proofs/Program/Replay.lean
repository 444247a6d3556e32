import PegGrammar.Proofs.Cursor.Alike
import PegGrammar.Proofs.Program.Lossless
import PegGrammar.Token.Walk

/-!
# Tokens replay the blocks

Which blocks are open is kept by the cursor, and the tokens of indentations tell of it again: one opens a block
inside of the innermost, others close one each. Both are taken back together when something comes back, so that
going through the tokens in the order of a walk ends with the blocks that are open at the end of a match, if it
begins with those that were open at its start. Only the tokens of indentations are of such a kind, as long as no
literal and no rule has the same name.
-/

namespace PegGrammar

/-- A kind of tokens that are not about blocks. -/
abbrev Program.Idle (kind : String) : Prop := kind ≠ indentKind ∧ kind ≠ dedentKind

/-- What a token does to the open blocks, outermost first: one is opened inside of the innermost, or that one is
closed. There is nothing to close if only the outermost is open. -/
def Piece.replay (piece : Piece) (blocks : List String) : Option (List String) :=
  if piece.kind = Program.indentKind then some (blocks ++ [blocks.getLastD "" ++ piece.value])
  else if piece.kind = Program.dedentKind then
    if blocks.length ≤ 1 then none else some blocks.dropLast
  else some blocks

theorem Piece.replay_idle {piece : Piece} (h : Program.Idle piece.kind) (blocks : List String) :
    piece.replay blocks = some blocks := by
  rw [replay, if_neg h.1, if_neg h.2]

namespace Walk

/-- Goes through a walk, from the blocks that are open at its start. -/
def replay (blocks : List String) (walk : Walk) : Option (List String) :=
  walk.foldlM (fun blocks visit => visit.2.replay blocks) blocks

theorem replay_append (blocks : List String) (chain more : Chain) :
    replay blocks (Token.walk (chain ++ more)) =
      (replay blocks (Token.walk chain)).bind fun blocks => replay blocks (Token.walk more) := by
  rw [Token.walk_eq, Token.preorderOfChain_append, replay, List.foldlM_append, Token.walk_eq, Token.walk_eq]
  rfl

theorem replay_singleton (blocks : List String) (piece : Piece) (children : Chain) :
    replay blocks (Token.walk [⟨piece, children⟩]) =
      (piece.replay blocks).bind fun blocks => replay blocks (Token.walk children) := by
  rw [Token.walk_eq, Token.preorderOfChain, Token.preorderOfChain, List.append_nil, Token.preorder,
    Token.preorderOfChain_succ, replay, List.foldlM_cons, Token.walk_eq]
  simp only [List.foldlM_map]
  rfl

theorem replay_dedents {blocks : List String} {count : Nat} (h : count < blocks.length) (value : String)
    (start stop : Nat) :
    replay blocks (Token.walk (List.replicate count (.leaf Program.dedentKind value start stop))) =
      some (blocks.take (blocks.length - count)) := by
  induction count generalizing blocks with
  | zero =>
    rw [List.replicate_zero, Nat.sub_zero, List.take_length, Token.walk_eq]
    rfl
  | succ count ih =>
    have hdropped : count < blocks.dropLast.length := by
      rw [List.length_dropLast]
      omega
    have hmany : ¬ blocks.length ≤ 1 := by omega
    have hkind : Program.dedentKind ≠ Program.indentKind := by decide
    have hpop : Piece.replay ⟨Program.dedentKind, value, start, stop⟩ blocks = some blocks.dropLast := by
      rw [Piece.replay, if_neg hkind, if_pos rfl, if_neg hmany]
    rw [List.replicate_succ, ← List.singleton_append, replay_append, Token.leaf, replay_singleton, hpop,
      Option.bind_some, Token.walk_eq, Token.preorderOfChain, replay, List.foldlM_nil, ← Token.leaf]
    show replay blocks.dropLast _ = _
    rw [ih hdropped, List.length_dropLast, List.dropLast_eq_take, List.take_take]
    congr 2
    omega

end Walk

namespace Program

variable {p : Program}

/-- Going through some tokens from the blocks that are open at one cursor ends with those at another. -/
def Replays (c : Cursor) (tokens : Chain) (d : Cursor) : Prop :=
  Walk.replay c.indents (Token.walk tokens) = some d.indents

theorem Replays.nil {c d : Cursor} (h : d.indents = c.indents) : Replays c [] d := by
  rw [Replays, h, Token.walk_eq]
  rfl

theorem Replays.append {c d e : Cursor} {tokens more : Chain} (h : Replays c tokens d)
    (hmore : Replays d more e) : Replays c (tokens ++ more) e := by
  rw [Replays, Walk.replay_append, h, Option.bind_some]
  exact hmore

theorem Replays.under {piece : Piece} (hidle : Idle piece.kind) {c d : Cursor} {children : Chain}
    (h : Replays c children d) : Replays c [⟨piece, children⟩] d := by
  rw [Replays, Walk.replay_singleton, Piece.replay_idle hidle, Option.bind_some]
  exact h

theorem Replays.leaf {c d : Cursor} {kind value : String} {start stop : Nat}
    (hidle : Idle kind) (h : d.indents = c.indents) :
    Replays c [.leaf kind value start stop] d :=
  .under hidle (.nil h)

/-- Between two states of a run some tokens were found that replay its blocks. -/
structure Replayed (s : Running) (tokens : Chain) (next : Running) : Prop where
  extended : s.cursor.Extends next.cursor
  replays : Replays s.cursor tokens next.cursor

theorem Replayed.trans {s mid next : Running} {tokens more : Chain} (h : Replayed s tokens mid)
    (hmore : Replayed mid more next) : Replayed s (tokens ++ more) next :=
  ⟨h.extended.trans hmore.extended, h.replays.append hmore.replays⟩

theorem Replayed.stayed {s next : Running} (h : next.cursor = s.cursor) : Replayed s [] next := by
  refine ⟨?_, .nil (congrArg Cursor.indents h)⟩
  rw [h]
  exact .refl _

/-- Coming back closes what was opened and opens what was closed. -/
theorem Replayed.restored {s next : Running} {tokens : Chain} (h : Replayed s tokens next) :
    Replayed s [] (next.restore s.cursor.checkpoint) :=
  have hreturns := h.extended.returns_restore
  ⟨hreturns.toExtends, .nil hreturns.indents_eq⟩

/-! ### Leaves -/

theorem Cursor.indents_eat? {c d : Cursor} {text : String} (h : c.eat? text = some d) :
    d.indents = c.indents := by
  rw [Cursor.eat?, Option.map_eq_some_iff] at h
  obtain ⟨q, -, rfl⟩ := h
  rfl

theorem replayed_literalStep {text : String} (h : Idle text) :
    Along Replayed (literalStep text) := by
  intro s
  rw [literalStep]
  split
  · exact .stayed rfl
  · rename_i moved heat
    exact ⟨Cursor.extends_eat? heat, .leaf h (Cursor.indents_eat? heat)⟩

theorem replayed_regexStep (pattern : Pattern) : Along Replayed (regexStep pattern) := by
  intro s
  rw [regexStep]
  split
  · exact .stayed rfl
  · rename_i value moved hmatch
    obtain ⟨n, rfl⟩ := exists_advance_of_match? hmatch
    have hidle : Idle regexKind := by decide
    exact ⟨Cursor.extends_advance s.cursor n, .leaf hidle rfl⟩

theorem replayed_eofStep : Along Replayed eofStep := by
  intro s
  rw [eofStep]
  split <;> exact .stayed rfl

theorem idle_currentIndentKind : Idle currentIndentKind := by decide

theorem getLastD_indents (c : Cursor) : c.indents.getLastD "" = c.innermost := by
  rw [Cursor.indents, Cursor.innermost]
  cases Block.indentsFrom c.block c.blocks with
  | nil => rfl
  | cons indent indents => rw [List.reverse_cons, ← List.cons_append, List.getLastD_concat, List.headD_cons]

theorem replays_pushIndent (c : Cursor) {run : List Char} (hbegins : c.innermost.toList <+: run)
    (start split stop : Nat) :
    Replays c [.leaf currentIndentKind c.innermost start split,
      .leaf indentKind (String.ofList (run.drop c.innermost.toList.length)) split stop]
      (c.pushIndent (String.ofList run)) := by
  obtain ⟨added, rfl⟩ := hbegins
  have hopened : Replays c [.leaf indentKind (String.ofList added) split stop]
      (c.pushIndent (String.ofList (c.innermost.toList ++ added))) := by
    rw [Replays, Token.leaf, Walk.replay_singleton, Piece.replay, if_pos rfl, Option.bind_some,
      getLastD_indents, Cursor.indents_pushIndent, String.ofList_append, String.ofList_toList, Token.walk_eq]
    rfl
  rw [List.drop_left]
  have hcurrent : Replays c [.leaf currentIndentKind c.innermost start split] c :=
    .leaf idle_currentIndentKind rfl
  exact hcurrent.append hopened

theorem replays_popIndents (c : Cursor) {closed : Nat} (h : closed < c.indents.length) (value : String)
    (start stop : Nat) :
    Replays c (List.replicate closed (.leaf dedentKind value start stop)) (c.popIndents closed) := by
  have hmin : min closed (c.indents.length - 1) = closed := Nat.min_eq_left (by omega)
  rw [Replays, Walk.replay_dedents h, Cursor.indents_popIndents, hmin]

theorem replayed_indentation : Along Replayed indentation := by
  intro s
  rw [indentation]
  dsimp only
  split
  · exact ⟨Cursor.extends_setPosition _ _, .leaf idle_currentIndentKind rfl⟩
  split
  · rename_i hbegins
    have hpushed := Cursor.extends_pushIndent s.cursor
      (String.ofList (s.cursor.remaining.takeWhile isIndent))
    exact ⟨hpushed.trans (Cursor.extends_setPosition _ _),
      replays_pushIndent s.cursor (List.isPrefixOf_iff_prefix.1 hbegins) _ _ _⟩
  split
  · rename_i closed hfound
    have hclosed : closed < s.cursor.indents.length := by
      obtain ⟨hlt, -⟩ := List.findIdx?_eq_some_iff_getElem.1 hfound
      rwa [List.length_reverse] at hlt
    have hpopped := replays_popIndents s.cursor hclosed "" s.position s.position
    exact ⟨(Cursor.extends_popIndents _ closed).trans (Cursor.extends_setPosition _ _),
      hpopped.append (.leaf idle_currentIndentKind rfl)⟩
  · exact .stayed rfl

/-! ### Rules -/

/-- No token but those of indentations is about blocks. -/
structure Unmistakable (p : Program) : Prop where
  scriptless : p.Scriptless
  literals : ∀ text, p.Contains (.literal text) → Idle text
  rules : ∀ rule ∈ p.rules, p.hasOwnToken rule = true → Idle rule.name

theorem replayed_wrap (h : p.Unmistakable) {rule : CompiledRule} (hrule : rule ∈ p.rules) {s next : Running}
    {tokens : Chain} (hs : Replayed s tokens next) :
    Replayed s (p.wrap rule s.position tokens next.cursor) next := by
  rw [wrap]
  split
  · rename_i hown
    exact ⟨hs.extended, hs.replays.under (h.rules rule hrule hown)⟩
  · exact hs

theorem chains_replayed (h : p.Unmistakable) : p.Chains Replayed where
  refl := fun _ => .stayed rfl
  trans := .trans
  restored := .restored
  silent := fun hcursor _ => .stayed hcursor
  tooDeep := fun rule s => .stayed (cursor_tooDeep p rule s)
  wrapped := fun hrule hs => replayed_wrap h hrule hs
  literal := fun hin => replayed_literalStep (h.literals _ hin)
  regex := fun _ => replayed_regexStep _
  eof := replayed_eofStep
  indentation := replayed_indentation
  script := fun hin => (h.scriptless.of_contains hin _ _ .root).elim

/-- The tokens of a match tell which blocks it opened and closed: going through them in the order of a walk, from
the blocks that were open before, never closes the outermost and ends with the blocks that are open after. -/
theorem tokens_replay (h : p.Unmistakable) (id : Nat) (cursor : Cursor) (tokens : Chain)
    (hmatch : (p.runRule id cursor).outcome = some tokens) :
    Walk.replay cursor.indents (Token.walk tokens) = some (p.runRule id cursor).cursor.indents := by
  have hreplayed := (chains_replayed h).callRule p.depthLimit id (.start cursor)
  change (p.callRule p.depthLimit id (.start cursor)).1 = some tokens at hmatch
  rw [hmatch] at hreplayed
  exact hreplayed.replays

theorem unmistakable_lines : lines.Unmistakable where
  scriptless := scriptless_lines
  literals := by
    rintro text ⟨rule, hrule, hwithin⟩
    have hnodes := hwithin.mem_nodes
    simp only [lines, List.mem_cons, List.not_mem_nil, or_false] at hrule
    rcases hrule with rfl | rfl
    · simp [Parser.nodes] at hnodes
    · simp only [Parser.nodes, Parser.nodesOfItems, List.mem_cons, List.mem_append, List.not_mem_nil,
        Parser.literal.injEq, reduceCtorEq, false_or, or_false] at hnodes
      rcases hnodes with rfl | rfl <;> decide
  rules := by
    intro rule hrule _
    simp only [lines, List.mem_cons, List.not_mem_nil, or_false] at hrule
    rcases hrule with rfl | rfl <;> decide

/-- The second line opens a block, which is still open at the end. -/
theorem tokens_replay_lines :
    lines.Unmistakable ∧ ∃ tokens, (lines.runRule 0 (.start "x; x;")).outcome = some tokens ∧
      Walk.replay [""] (Token.walk tokens) = some ["", " "] := by
  have hmatched : (lines.runRule 0 (.start "x; x;")).outcome.isSome = true := by cbv
  have hindents : (lines.runRule 0 (.start "x; x;")).cursor.indents = ["", " "] := by cbv
  obtain ⟨tokens, htokens⟩ := Option.isSome_iff_exists.1 hmatched
  have hreplay := tokens_replay unmistakable_lines 0 (.start "x; x;") tokens htokens
  rw [hindents] at hreplay
  exact ⟨unmistakable_lines, tokens, htokens, hreplay⟩

end Program

end PegGrammar
