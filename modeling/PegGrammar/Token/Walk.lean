import PegGrammar.Token.Basic

/-!
# Walks over tokens

A walk lists the pieces of a chain with their depths, every token before its children and its
children before the next token of its chain. It determines the chain: `Walk.rebuild` finds the chain
again by keeping, for each depth, the tokens that were met there and whose parent is still open.

Chains may be long and trees deep, so a walk keeps the chains that are still to be visited in a list
and does not recurse into them.
-/

namespace PegGrammar

abbrev Walk := List (Nat × Piece)

namespace Token

def pendingSize : List (Nat × Chain) → Nat
  | [] => 0
  | (_, chain) :: pending => 1 + 2 * sizeOfChain chain + pendingSize pending

private def walkFrom (done : Walk) : List (Nat × Chain) → Walk
  | [] => done.reverse
  | (_, []) :: pending => walkFrom done pending
  | (depth, ⟨piece, children⟩ :: chain) :: pending =>
    walkFrom ((depth, piece) :: done) ((depth + 1, children) :: (depth, chain) :: pending)
termination_by pending => pendingSize pending
decreasing_by
  · simp only [pendingSize, sizeOfChain]; omega
  · simp only [pendingSize, sizeOfChain, size]; omega

def walk (chain : Chain) : Walk := walkFrom [] [(0, chain)]

mutual

/-- A token at some depth and all that is below it, every token before those below. -/
def preorder (depth : Nat) : Token → Walk
  | ⟨piece, children⟩ => (depth, piece) :: preorderOfChain (depth + 1) children

def preorderOfChain (depth : Nat) : Chain → Walk
  | [] => []
  | token :: chain => token.preorder depth ++ preorderOfChain depth chain

end

private theorem walkFrom_eq (done : Walk) (pending : List (Nat × Chain)) :
    walkFrom done pending =
      done.reverse ++ pending.flatMap fun (depth, chain) => preorderOfChain depth chain := by
  induction done, pending using walkFrom.induct with
  | case1 done => simp [walkFrom]
  | case2 done depth pending ih => simp [walkFrom, ih, preorderOfChain]
  | case3 done depth piece children chain pending ih =>
    simp [walkFrom, ih, preorderOfChain, preorder]

theorem walk_eq (chain : Chain) : walk chain = preorderOfChain 0 chain := by
  rw [walk, walkFrom_eq]
  simp

theorem preorderOfChain_append (depth : Nat) (chain more : Chain) :
    preorderOfChain depth (chain ++ more) = preorderOfChain depth chain ++ preorderOfChain depth more := by
  induction chain with
  | nil => rfl
  | cons token chain ih => rw [List.cons_append, preorderOfChain, ih, preorderOfChain, List.append_assoc]

mutual

theorem preorder_succ (depth : Nat) :
    (token : Token) → token.preorder (depth + 1) = (token.preorder depth).map (Prod.map Nat.succ id)
  | ⟨piece, children⟩ => by
    rw [preorder, preorder, List.map_cons, preorderOfChain_succ (depth + 1) children]
    rfl

theorem preorderOfChain_succ (depth : Nat) :
    (chain : Chain) →
      preorderOfChain (depth + 1) chain = (preorderOfChain depth chain).map (Prod.map Nat.succ id)
  | [] => rfl
  | token :: chain => by
    rw [preorderOfChain, preorderOfChain, List.map_append, preorder_succ depth token,
      preorderOfChain_succ depth chain]

end

/-- Whether two chains are the same, found out by comparing their walks. -/
def sameChain (a b : Chain) : Bool := walk a == walk b

end Token

namespace Walk

/-- The tokens met so far at one depth, last first. -/
abbrev Level := List Token

/-- Makes the tokens of a level the children of the last token of the level above. -/
def closeLevel (level : Level) : List Level → List Level
  | (parent :: siblings) :: levels => (⟨parent.piece, level.reverse⟩ :: siblings) :: levels
  | levels => levels

/-- Closes levels, innermost first, until at most `keep` are left. -/
def closeTo (keep : Nat) : Nat → List Level → List Level
  | count, level :: levels =>
    if keep < count then closeTo keep (count - 1) (closeLevel level levels) else level :: levels
  | _, [] => []
termination_by count => count
decreasing_by omega

/-- Goes on with a walk, from as many open levels as are counted. -/
def rebuildFrom (count : Nat) (levels : List Level) : Walk → Chain
  | [] => ((closeTo 1 count levels).headD []).reverse
  | (depth, piece) :: walk =>
    let levels := closeTo (depth + 1) count levels
    let count := min count (depth + 1)
    match levels with
    | level :: outer =>
      if count = depth + 1 then rebuildFrom count ((⟨piece, []⟩ :: level) :: outer) walk
      else rebuildFrom (count + 1) ([⟨piece, []⟩] :: levels) walk
    | [] => rebuildFrom 1 [[⟨piece, []⟩]] walk

def rebuild (walk : Walk) : Chain := rebuildFrom 0 [] walk

end Walk

namespace Token

def copy (chain : Chain) : Chain := Walk.rebuild (walk chain)

end Token

end PegGrammar
