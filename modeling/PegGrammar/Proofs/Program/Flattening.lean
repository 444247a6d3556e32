import Mathlib
import PegGrammar.Proofs.Compile.Settings
import PegGrammar.Proofs.Program.Translation

/-!
# Trees of tokens

With parse trees, a rule puts a token of its name around the tokens of its body; without, it passes them on.
Nothing else is different, and a run does not look at tokens, so the two runs go through the same states. To get
the chain of the flat run, the nodes of the tree are replaced by what lies below them. That needs a node to be
told from a leaf by its kind, and this is possible as long as no leaf is called like a rule.
-/

namespace PegGrammar

namespace Token

mutual

/-- A token with the nodes of some kinds replaced by what lies below them. -/
def flattened (isNode : String → Bool) : Token → Chain
  | ⟨piece, children⟩ =>
    if isNode piece.kind then flattenedChain isNode children
    else [⟨piece, flattenedChain isNode children⟩]

/-- A chain with the nodes of some kinds replaced by what lies below them. -/
def flattenedChain (isNode : String → Bool) : Chain → Chain
  | [] => []
  | token :: chain => token.flattened isNode ++ flattenedChain isNode chain

end

theorem flattenedChain_eq_flatMap (isNode : String → Bool) (chain : Chain) :
    flattenedChain isNode chain = chain.flatMap (flattened isNode) := by
  induction chain with
  | nil => rfl
  | cons token chain ih => rw [flattenedChain, ih, List.flatMap_cons]

theorem flattened_leaf {isNode : String → Bool} {kind : String} (h : isNode kind = false)
    (value : String) (start stop : Nat) :
    (leaf kind value start stop).flattened isNode = [leaf kind value start stop] := by
  simp [leaf, flattened, flattenedChain, h]

theorem flattened_node {isNode : String → Bool} {kind : String} (h : isNode kind = true)
    (value : String) (start stop : Nat) (children : Chain) :
    (node kind value start stop children).flattened isNode = children.flatMap (flattened isNode) := by
  simp [node, flattened, h, flattenedChain_eq_flatMap]

end Token

namespace Program

/-- Whether a kind is the name of a rule that can get a token of its own. -/
def namesNode (p : Program) (kind : String) : Bool :=
  p.rules.any (fun rule => rule.name = kind && !hiddenMark.toList.isPrefixOf rule.name.toList)

/-- The chain with every token of a rule replaced by what lies below it. -/
def flattened (p : Program) (chain : Chain) : Chain := Token.flattenedChain p.namesNode chain

theorem flattened_eq_flatMap (p : Program) :
    p.flattened = List.flatMap (Token.flattened p.namesNode) :=
  funext (Token.flattenedChain_eq_flatMap p.namesNode)

/-- No leaf makes a token of a kind that is the name of a rule. -/
structure KindsApart (p : Program) : Prop where
  fixed : ∀ kind ∈ fixedKinds, p.namesNode kind = false
  literals : ∀ rule ∈ p.rules, ∀ text, (Parser.literal text).Within rule.body →
    p.namesNode text = false

/-- The program without parse trees. -/
def withoutTree (p : Program) : Program := { p with config := { p.config with parseTree := false } }

theorem wrap_withoutTree {p : Program} {rule : CompiledRule} (hrule : rule ∈ p.rules) (start : Nat)
    (tokens : Chain) (c : Cursor) :
    p.withoutTree.wrap rule start (tokens.flatMap (Token.flattened p.namesNode)) c =
      (p.wrap rule start tokens c).flatMap (Token.flattened p.namesNode) := by
  have hflat : p.withoutTree.hasOwnToken rule = false := Bool.false_and _
  rw [wrap, wrap, hflat, if_neg Bool.false_ne_true]
  split
  · rename_i hown
    have hnode : p.namesNode rule.name = true := by
      rw [hasOwnToken, Bool.and_eq_true] at hown
      exact List.any_eq_true.2 ⟨rule, hrule, by simpa using hown.2⟩
    rw [List.flatMap_singleton, Token.flattened_node hnode]
  · rfl

theorem translatesTo_withoutTree {p : Program} (hscripts : p.Scriptless) (hkinds : p.KindsApart) :
    p.TranslatesTo (Token.flattened p.namesNode) p.withoutTree where
  fixed := fun kind hkind => Token.flattened_leaf (hkinds.fixed kind hkind)
  scriptless := hscripts
  keeps := fun rule hrule text htext => Token.flattened_leaf (hkinds.literals rule hrule text htext) text
  rules := rfl
  literals := rfl
  depthLimit := rfl
  trace := rfl
  wrap := fun _ hrule => wrap_withoutTree hrule

end Program

/-- The compiler with parse trees turned on or off. -/
def Compiler.withParseTree (c : Compiler) (on : Bool) : Compiler :=
  { c with config := { c.config with parseTree := on } }

theorem Compiler.compilesLike_withParseTree (c : Compiler) (on on' : Bool) :
    (c.withParseTree on).CompilesLike (c.withParseTree on') :=
  ⟨rfl, rfl, rfl, rfl, rfl⟩

/-- Parse trees only add structure. A grammar compiles with them if it does without, or gives the same error;
and wherever a rule is run, the flat program has the outcome of the tree, flattened, and the same cursor, report
and log. Where a rule expands without end, neither gives a program. -/
theorem Program.tree_only_adds_structure (c : Compiler) (start : String) :
    (∀ error, ((c.withParseTree false).compile start).1 = .error error →
      ((c.withParseTree true).compile start).1 = .error error) ∧
    ∀ flat, ((c.withParseTree false).compile start).1 = .ok flat →
      ∃ tree, ((c.withParseTree true).compile start).1 = .ok tree ∧ tree.start = flat.start ∧
        (flat.Scriptless → flat.KindsApart → ∀ id cursor,
          flat.runRule id cursor =
            { tree.runRule id cursor with
              outcome := (tree.runRule id cursor).outcome.map flat.flattened }) := by
  have hlike := c.compilesLike_withParseTree false true
  have htree := Compiler.compile_congr hlike start
  refine ⟨fun error herror => ?_, fun flat hflat => ?_⟩
  · rw [herror] at htree
    exact htree
  · have hconfig := (Compiler.settings_of_compile hflat).2
    have hfingerprint : flat.fingerprint = (c.withParseTree true).fingerprint := by
      obtain ⟨_, _, _, _, _, _, _, _, hprogram⟩ := Compiler.exists_session_of_compile hflat
      rw [hprogram]
      rfl
    rw [hflat] at htree
    have hwithout : withoutTree { flat with
        config := (c.withParseTree true).config
        fingerprint := (c.withParseTree true).fingerprint } = flat := by
      obtain ⟨rules, start, nesting, literals, scripts, config, fingerprint⟩ := flat
      cases hconfig
      cases hfingerprint
      rfl
    refine ⟨_, htree, rfl, fun hscripts hkinds id cursor => ?_⟩
    have hrun := runRule_translated (translatesTo_withoutTree (p := { flat with
      config := (c.withParseTree true).config
      fingerprint := (c.withParseTree true).fingerprint }) hscripts
      ⟨hkinds.fixed, hkinds.literals⟩) id cursor
    rw [hwithout] at hrun
    rw [hrun, flattened_eq_flatMap]
    rfl

/-- Sums of digits, with a rule of its own for the sign that leaves no token. -/
def Compiler.signedSums : Compiler where
  grammar :=
    let literal : String → Rule := fun text => .combinator "$literal" (.text text)
    [("__sign", literal "+"),
      ("digit", .combinator "$or" (.list [literal "1", literal "2"])),
      ("sum", .list [.text "digit", .combinator "$optional" (.list [.text "__sign", .text "sum"])])]
  fingerprint := ⟨[]⟩
  scripts := .none
  config := { Config.default with pruneAlternatives := false }
  overrides := []

def Program.signedSums (tree : Bool) : Program where
  rules := [⟨"sum", .sequence [.rule 1, .optional (.sequence [.rule 2, .rule 0])]⟩,
    ⟨"digit", .choice [(none, .literal "1"), (none, .literal "2")]⟩, ⟨"__sign", .literal "+"⟩]
  start := 0
  nesting := 4
  literals := .empty 0
  scripts := .none
  config := (Compiler.signedSums.withParseTree tree).config
  fingerprint := ⟨[]⟩

theorem Program.tree_only_adds_structure_signedSums :
    ((Compiler.signedSums.withParseTree false).compile "sum").1 = .ok (signedSums false) ∧
    (signedSums false).Scriptless ∧ (signedSums false).KindsApart ∧
    ((signedSums true).runRule 0 (.start "1+2")).outcome = some [.node "sum" "1+2" 0 3
      [.node "digit" "1" 0 1 [.leaf "1" "1" 0 1], .leaf "+" "+" 1 2,
        .node "sum" "2" 2 3 [.node "digit" "2" 2 3 [.leaf "2" "2" 2 3]]]] ∧
    ((signedSums false).runRule 0 (.start "1+2")).outcome =
      some [.leaf "1" "1" 0 1, .leaf "+" "+" 1 2, .leaf "2" "2" 2 3] := by
  have hcompiled : ((Compiler.signedSums.withParseTree false).compile "sum").1 =
      .ok (signedSums false) := by cbv
  have hcompiledTree : ((Compiler.signedSums.withParseTree true).compile "sum").1 =
      .ok (signedSums true) := by cbv
  have hscripts : (signedSums false).Scriptless := by
    intro rule hrule source handle hwithin
    have hnodes := hwithin.mem_nodes
    simp only [signedSums, List.mem_cons, List.not_mem_nil, or_false] at hrule
    rcases hrule with rfl | rfl | rfl
    all_goals simp [Parser.nodes, Parser.nodesOfItems, Parser.nodesOfBranches] at hnodes
  have hkinds : (signedSums false).KindsApart := by
    refine ⟨by decide, fun rule hrule text hwithin => ?_⟩
    have hnodes := hwithin.mem_nodes
    simp only [signedSums, List.mem_cons, List.not_mem_nil, or_false] at hrule
    rcases hrule with rfl | rfl | rfl
    all_goals simp [Parser.nodes, Parser.nodesOfItems, Parser.nodesOfBranches] at hnodes
    · rcases hnodes with rfl | rfl <;> decide
    · subst hnodes
      decide
  have htree : ((signedSums true).runRule 0 (.start "1+2")).outcome = some [.node "sum" "1+2" 0 3
      [.node "digit" "1" 0 1 [.leaf "1" "1" 0 1], .leaf "+" "+" 1 2,
        .node "sum" "2" 2 3 [.node "digit" "2" 2 3 [.leaf "2" "2" 2 3]]]] := by cbv
  obtain ⟨tree, htreeCompiled, -, hruns⟩ :=
    (tree_only_adds_structure Compiler.signedSums "sum").2 _ hcompiled
  cases hcompiledTree.symm.trans htreeCompiled
  refine ⟨hcompiled, hscripts, hkinds, htree, ?_⟩
  rw [hruns hscripts hkinds 0 (.start "1+2")]
  dsimp only
  rw [htree]
  rfl

end PegGrammar
