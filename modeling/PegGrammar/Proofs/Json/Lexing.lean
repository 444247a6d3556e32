import Mathlib
import PegGrammar.Json.Lexeme
import PegGrammar.Rule.Printer

/-!
# The lexemes of a printed rule

A string that was quoted is scanned to the string, and what follows its closing mark is left over. So
the lexemes of a printed rule are told by its structure: marks around the parts, commas between them,
and one string for each text and each key.
-/

namespace PegGrammar.Json

/-! ### Quoted strings -/

private theorem hexQuad?_control :
    ∀ n < 32, hexQuad? '0' '0' (hexDigit (n / 16)) (hexDigit (n % 16)) = some n := by
  decide

/-- A control character is in neither half of a pair, so its code stands for it. -/
private theorem scanString_control {c : Char} (hc : c.toNat < 32) (taken cs : List Char) :
    scanString taken ('\\' :: 'u' :: '0' :: '0' :: hexDigit (c.toNat / 16) ::
      hexDigit (c.toNat % 16) :: cs) = scanString (c :: taken) cs := by
  have hlow : isLowHalf c.toNat = false := by simp [isLowHalf]; omega
  have hhigh : isHighHalf c.toNat = false := by simp [isHighHalf]; omega
  rw [scanString, hexQuad?_control _ hc]
  simp [hlow, hhigh]

theorem scanString_escape (c : Char) (taken cs : List Char) :
    scanString taken (escape c ++ cs) = scanString (c :: taken) cs := by
  unfold escape
  split_ifs with _ hback _ _ _ _ _ hcontrol
  -- the seven characters that are escaped by a letter
  iterate 7
    · subst c
      simp [scanString, unescape?]
  · exact scanString_control hcontrol taken cs
  · simp [scanString, hback, hcontrol]

theorem scanString_quoted (s taken cs : List Char) :
    scanString taken (s.flatMap escape ++ '"' :: cs)
      = .ok (String.ofList (taken.reverse ++ s), cs) := by
  induction s generalizing taken with
  | nil => simp [scanString]
  | cons c s ih =>
    rw [List.flatMap_cons, List.append_assoc, scanString_escape, ih]
    simp

/-! ### Lexemes -/

/-- The lexemes of a text, in as many steps as there are characters or more. -/
def Lexes (cs : List Char) (lexemes : List Lexeme) : Prop :=
  ∀ steps, cs.length ≤ steps → lexemesIn steps cs = lexemes

theorem Lexes.eq {cs : List Char} {ls : List Lexeme} (h : Lexes cs ls) : lexemes cs = ls :=
  h _ le_rfl

theorem lexes_nil : Lexes [] [] := by
  rintro (_ | steps) _ <;> rfl

theorem Lexes.blank {cs : List Char} {ls : List Lexeme} (h : Lexes cs ls) {c : Char}
    (hc : isBlank c = true) : Lexes (c :: cs) ls := by
  rintro (_ | steps) hsteps
  · cases hsteps
  · rw [lexemesIn, if_pos hc]
    exact h steps (Nat.le_of_succ_le_succ hsteps)

/-- A character that starts a lexeme gives the lexeme, and the lexemes of what follows it. -/
theorem Lexes.cons {c : Char} {cs rest : List Char} {lexeme : Lexeme} {ls : List Lexeme}
    (h : Lexes rest ls) (hc : isBlank c = false) (hfrom : lexemeFrom c cs = (lexeme, rest))
    (hrest : rest.length ≤ cs.length) : Lexes (c :: cs) (lexeme :: ls) := by
  rintro (_ | steps) hsteps
  · cases hsteps
  · rw [lexemesIn, if_neg (by simp [hc]), hfrom]
    exact congrArg (lexeme :: ·) (h steps (le_trans hrest (Nat.le_of_succ_le_succ hsteps)))

section

variable {cs : List Char} {ls : List Lexeme} (h : Lexes cs ls)

include h

theorem Lexes.openList : Lexes ('[' :: cs) (.openList :: ls) := h.cons rfl rfl le_rfl

theorem Lexes.closeList : Lexes (']' :: cs) (.closeList :: ls) := h.cons rfl rfl le_rfl

theorem Lexes.openMap : Lexes ('\x7b' :: cs) (.openMap :: ls) := h.cons rfl rfl le_rfl

theorem Lexes.closeMap : Lexes ('\x7d' :: cs) (.closeMap :: ls) := h.cons rfl rfl le_rfl

theorem Lexes.comma : Lexes (',' :: ' ' :: cs) (.comma :: ls) := (h.blank rfl).cons rfl rfl le_rfl

theorem Lexes.colon : Lexes (':' :: ' ' :: cs) (.colon :: ls) := (h.blank rfl).cons rfl rfl le_rfl

theorem Lexes.quote (s : String) : Lexes (quote s ++ cs) (.string s :: ls) := by
  have hscan : lexemeFrom '"' (s.toList.flatMap escape ++ '"' :: cs) = (.string s, cs) := by
    simp [lexemeFrom, scanString_quoted]
  simpa [Json.quote] using h.cons rfl hscan (by simp; omega)

end

end PegGrammar.Json

namespace PegGrammar.Rule

open Json (Lexeme Lexes)

/-! ### Printed rules -/

mutual

/-- The lexemes of a printed rule. -/
def lexemes : Rule → List Lexeme
  | .text s => [.string s]
  | .list items => .openList :: lexemesOfItems true items ++ [.closeList]
  | .map entries => .openMap :: lexemesOfEntries true entries ++ [.closeMap]

def lexemesOfItems (first : Bool) : List Rule → List Lexeme
  | [] => []
  | item :: items => (if first then [] else [.comma]) ++ item.lexemes ++ lexemesOfItems false items

def lexemesOfEntries (first : Bool) : List (String × Rule) → List Lexeme
  | [] => []
  | (key, value) :: entries =>
    (if first then [] else [.comma]) ++ [.string key, .colon] ++ value.lexemes
      ++ lexemesOfEntries false entries

end

private theorem lexes_divider {cs : List Char} {ls : List Lexeme} (h : Lexes cs ls) (first : Bool) :
    Lexes ((if first then [] else [',', ' ']) ++ cs) ((if first then [] else [.comma]) ++ ls) := by
  cases first
  · exact h.comma
  · exact h

mutual

theorem lexes_chars {cs : List Char} {ls : List Lexeme} (h : Lexes cs ls) :
    ∀ r : Rule, Lexes (r.chars ++ cs) (r.lexemes ++ ls)
  | .text s => by simpa [chars, lexemes] using h.quote s
  | .list items => by
    simpa [chars, lexemes] using (lexes_charsOfItems h.closeList true items).openList
  | .map entries => by
    simpa [chars, lexemes] using (lexes_charsOfEntries h.closeMap true entries).openMap

theorem lexes_charsOfItems {cs : List Char} {ls : List Lexeme} (h : Lexes cs ls) (first : Bool) :
    ∀ items : List Rule, Lexes (charsOfItems first items ++ cs) (lexemesOfItems first items ++ ls)
  | [] => h
  | item :: items => by
    have hitem := lexes_chars (lexes_charsOfItems h false items) item
    simpa [charsOfItems, lexemesOfItems] using lexes_divider hitem first

theorem lexes_charsOfEntries {cs : List Char} {ls : List Lexeme} (h : Lexes cs ls) (first : Bool) :
    ∀ entries : List (String × Rule),
      Lexes (charsOfEntries first entries ++ cs) (lexemesOfEntries first entries ++ ls)
  | [] => h
  | (key, value) :: entries => by
    have hvalue := lexes_chars (lexes_charsOfEntries h false entries) value
    simpa [charsOfEntries, lexemesOfEntries] using lexes_divider (hvalue.colon.quote key) first

end

/-- A printed rule has the lexemes of its structure. -/
theorem lexemes_render (r : Rule) : Json.lexemes r.render.toList = r.lexemes := by
  have h := lexes_chars Json.lexes_nil r
  simp only [List.append_nil] at h
  rw [render, String.toList_ofList, h.eq]

end PegGrammar.Rule
