import PegGrammar.Unicode.Property

/-!
# Texts shown in messages

A text that is part of a message is written so that it stays on one line and can be told from what
surrounds it: controls, characters without a shape and characters that would attach to their
neighbour are written by their code. What is escaped beyond that depends on where the text stands.
-/

namespace PegGrammar.Text

/-- The marks that attach to the character before them. Two letters that do so too have a shape of
their own. -/
def attachedCharacters : CodeSet :=
  ((Unicode.property? .v17 "graphemeextend").getD .empty).diff
    ((Unicode.category? .v17 "lm").getD .empty)

/-- The characters that have a shape: neither controls, nor unassigned, nor blanks other than the
space, nor characters that nothing is drawn for. -/
def visibleCharacters : CodeSet :=
  ((CodeSet.unions (["c", "z"].filterMap (Unicode.category? .v17)
    ++ ["defaultignorablecodepoint"].filterMap (Unicode.property? .v17))).diff
      (.single 0x20)).compl

/-- Whether a character would attach to the one before it. -/
def isAttached (c : Char) : Bool := c.toNat ≥ 128 && attachedCharacters.contains c

def isVisible (c : Char) : Bool :=
  if c.toNat < 128 then 32 ≤ c.toNat && c.toNat < 127 else visibleCharacters.contains c

def byCode (c : Char) : List Char :=
  ['\\', 'u', '\x7b'] ++ Nat.toDigits 16 c.toNat ++ ['\x7d']

/-- How a character is shown. `apostrophes` says whether an apostrophe is escaped, and `attached`
whether a character that attaches to the one before it is. -/
def shownChar (apostrophes attached : Bool) (c : Char) : List Char :=
  if c = '\x00' then ['\\', '0']
  else if c = '\t' then ['\\', 't']
  else if c = '\r' then ['\\', 'r']
  else if c = '\n' then ['\\', 'n']
  else if c = '"' ∨ c = '\\' then ['\\', c]
  else if apostrophes ∧ c = '\'' then ['\\', c]
  else if attached ∧ isAttached c then byCode c
  else if isVisible c then [c]
  else byCode c

def shown (s : String) : String :=
  String.ofList ('"' :: s.toList.flatMap (shownChar false true) ++ ['"'])

def shownPath (s : String) : String :=
  String.ofList ('"' :: s.toList.flatMap (shownChar true true) ++ ['"'])

/-- A text without quotation marks around it: an attached character in front has nothing to attach
to and is escaped, later ones are kept. -/
def shownBare (s : String) : String :=
  String.ofList (match s.toList with
    | [] => []
    | c :: cs => shownChar true true c ++ cs.flatMap (shownChar true false))

end PegGrammar.Text
