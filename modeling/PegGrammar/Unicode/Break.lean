import PegGrammar.Unicode.Property

/-!
# Boundaries in texts

Characters are classified by the part that they play when a text is cut into what a reader sees as
one character, into words and into sentences. The classes of a kind exclude each other; a character
in none of them is an ordinary one.
-/

namespace PegGrammar.Unicode

/-- Where a text may be cut between the characters that a reader sees. -/
def graphemeBreaks : List Property := [
  ⟨["cn", "control"], ["cc", "cf", "zl", "zp"], ⟨[
    "a 1 2 1 5f2 6 d7 1 31 1 180 2 50 1 1729 2 57 1 df8a 9 10c4 1 f 1 cef32 1 1 fe f0 e10 "], []⟩⟩,
  ⟨["cr"], [], ⟨["d 1 "], []⟩⟩,
  ⟨["ex", "extend"], ["mn", "me"], ⟨[
    "9be 1 18 1 166 1 18 1 66 1 18 1 e8 1 1 1 4 2 1 2 9 2 67 1 18 1 77 1 f 1 935 1 1e 1 400 1 5 ",
    "1 1 1 5 2 65 1 47 2 418 1 1021 2 7923 1 6c 1 55dd 2 1220 1 74 1 108 1 e 1 9 1 60 1 9 1 2 1 ",
    "1 3 5 1 e0 1 c 1 f1 1 106 1 279 1 c 1 603 1 50ae 2 6173 2 6 6 2288 5 c0c20 60 "], [(.v15, [
      "cc0 1 6 2 1 2 a49 1 1e 1 406 1 1 1 5 2 65 1 47 2 8d5f 1 6c 1 67ff 1 74 1 117 1 368 1 286 ",
      "1 603 1 50ae 2 6174 1 6 1 "])]⟩⟩,
  ⟨["l"], [], ⟨["1100 60 9800 1d "], []⟩⟩,
  ⟨["lf"], [], ⟨["a 1 "], []⟩⟩,
  ⟨["pp", "prepend"], [], ⟨[
    "600 6 d7 1 31 1 180 2 50 1 46b 1 1036e 1 f 1 f4 2 20d 1 56d 1 1 1 142 6 2bc 1 1bb 1 "], [(.v15, ["11a3a 1 "]),
    (.v16, ["11a3a 1 "])]⟩⟩,
  ⟨["ri", "regionalindicator"], [], ⟨["1f1e6 1a "], []⟩⟩,
  ⟨["sm", "spacingmark"], ["mc"], ⟨[
    "9be 1 18 1 166 1 18 1 66 1 18 1 e8 1 1 1 4 2 1 2 9 2 67 1 18 1 77 1 f 1 53 1 7f 1 177 2 b 1 ",
    "29 3 2 7 15 1 3 6 2 1 a 3 678 1 1e 1 32c 1 1 2 d0 1 5 1 1 1 5 2 65 1 47 2 143a 2 7923 1 6c ",
    "1 ba 1 1 1 6742 1 74 1 108 1 e 1 9 1 60 1 9 1 2 1 1 3 5 1 e0 1 c 1 f1 1 106 1 69 2 20e 1 c ",
    "1 603 1 50ae 2 6173 2 6 6 "], [(.v15, [
      "cc0 1 6 2 1 2 a49 1 1e 1 406 1 1 1 5 2 65 1 47 2 8d5f 1 6c 1 67ff 1 74 1 117 1 368 1 286 ",
      "1 603 1 50ae 2 6174 1 6 1 "])]⟩⟩,
  ⟨["t"], [], ⟨["11a8 58 c5cb 31 "], []⟩⟩,
  ⟨["v"], [], ⟨["1160 48 c608 17 959c 1 3 4 "], []⟩⟩,
  ⟨["zwj"], [], ⟨["200d 1 "], []⟩⟩]

def wordBreaks : List Property := [
  ⟨["cr"], [], ⟨["d 1 "], []⟩⟩,
  ⟨["dq", "doublequote"], [], ⟨["22 1 "], []⟩⟩,
  ⟨["ex", "extendnumlet"], ["pc"], ⟨["202f 1 "], []⟩⟩,
  ⟨["extend"], ["m"], ⟨["200c 1 df91 2 f45b 5 c0c20 60 "], []⟩⟩,
  ⟨["fo", "format"], ["cf"], ⟨["600 6 d7 1 31 1 180 2 50 1 1728 3 f0af 1 f 1 cef52 60 "], [(.v15, ["600 6 d7 1 31 1 180 2 50 1 107da 1 f 1 "])]⟩⟩,
  ⟨["hl", "hebrewletter"], [], ⟨["5d0 1b 4 4 f52a 1 1 a 1 d 1 5 1 1 1 2 1 2 1 a "], []⟩⟩,
  ⟨["ka", "katakana"], [], ⟨[
    "3031 5 65 2 3 5b 1 4 f0 10 d0 2f 1 58 cc0e 38 b052 4 1 7 1 2 1 1 11f 3 32 1 e 4 "], []⟩⟩,
  ⟨["le", "aletter"], ["l", "nl"], ⟨[
    "b8 1 209 4 c 6 6 2 5 7 1 1 1 11 25a 3 1 1 2b 1 45 1b 4 5 11b 1 6f1 30 1 2 c 7 3a 2 1 1 1 5 ",
    "1 18 1 1 1 a 1 2 9 1 2 5 1 1 15 4 120 2b 14 1 10 6 4 4 3 1 3 2 7 3 4 d c 1 6f1 34 23 1 4 1 ",
    "173 1e 2 5 b 2c 4 1a 56 35 52 1 a0e 34 b1c 2 19 9 7 5 2 3 6 56 6 3 1 5a 1 4 f0 10 200 19c0 ",
    "40 5200 708 f 9 2 67 2 255 5 1 a a 5 61 17 3 1 3 32 1 1 3 2 2 5 2 1 1 1 18 3 7d 1 4da4 16e ",
    "2 6a 43 1 1 a 1 d 1 5 1 1 1 2 1 2 1 a 416 3a 1760 1b 25 7 58ab 5 9 1cd6 29 20 61 73 21fd 4 ",
    "1 7 1 2 1 123 f 1 1d 3 2 1 e 4 8 18c 3e34 1a 6 1a 6 1a e76 a6e0 20 111e 2 168e 2 1d31 f 26e ",
    "9a2 21e 5e2 134b 5 212a "], [(.v15, ["b8 1 656 1 "])]⟩⟩,
  ⟨["lf"], [], ⟨["a 1 "], []⟩⟩,
  ⟨["mb", "midnumlet"], [], ⟨["2e 1 1fe9 2 a 1 de2d 1 b4 1 6 1 "], []⟩⟩,
  ⟨["ml", "midletter"], [], ⟨["3a 1 7c 1 2cf 1 1d7 1 94 1 1a32 1 ddeb 1 41 1 c4 1 "], []⟩⟩,
  ⟨["mn", "midnum"], [], ⟨[
    "2c 1 e 1 342 1 20a 1 82 2 5e 1 18b 1 184b 1 de0b 1 3 1 b7 1 e 1 "], [(.v15, ["fe10 1 3 1 "])]⟩⟩,
  ⟨["nl", "newline"], [], ⟨["b 2 78 1 1fa2 2 "], []⟩⟩,
  ⟨["nu", "numeric"], ["nd"], ⟨["600 6 65 1 71 1 1b2 2 50 1 10f7 1 f6e2 1 f 1 "], [(.v15, ["600 6 d7 1 1b2 2 50 1 10f7 1 f6e2 1 f 1 "])]⟩⟩,
  ⟨["ri", "regionalindicator"], [], ⟨["1f1e6 1a "], []⟩⟩,
  ⟨["sq", "singlequote"], [], ⟨["27 1 "], []⟩⟩,
  ⟨["wsegspace"], ["zs"], ⟨["a0 1 1f66 1 27 1 "], []⟩⟩,
  ⟨["zwj"], [], ⟨["200d 1 "], []⟩⟩]

def sentenceBreaks : List Property := [
  ⟨["at", "aterm"], [], ⟨["2e 1 1ff5 1 de2d 1 bb 1 "], []⟩⟩,
  ⟨["cl", "close"], ["ps", "pe", "pi", "pf"], ⟨["22 1 4 1 2733 6 69f 2 4 3 2 1 1c86a 3 "], []⟩⟩,
  ⟨["cr"], [], ⟨["d 1 "], []⟩⟩,
  ⟨["ex", "extend"], ["m"], ⟨["200c 2 df90 2 d0080 60 "], []⟩⟩,
  ⟨["fo", "format"], ["cf"], ⟨["600 6 d7 1 1b2 2 50 1 1729 2 f0af 1 f 1 cef52 60 "], [(.v15, ["600 6 d7 1 1b2 2 50 1 107da 1 f 1 "])]⟩⟩,
  ⟨["le", "oletter"], ["lo", "lm", "nl"], ⟨[
    "aa 1 f 1 1f5 9 7 2 1e 5 95 1 278 1 adc 2b 1 4 b90 2b 2 3 6c 3f d 1 22 25 2b1 1 d 1 10 d c3 ",
    "20 afc 2 7a1e 2 d2 1 80 4 3 2 362 4 9 1 5434 2 7e0 1 2 3 1 2a 1 9 d875 3e "], []⟩⟩,
  ⟨["lf"], [], ⟨["a 1 "], []⟩⟩,
  ⟨["lo", "lower"], ["ll"], ⟨[
    "aa 1 f 1 1f5 9 7 2 1e 5 95 1 d55 2b 1 4 c2c 3f d 1 22 25 2b1 1 d 1 10 d d3 10 350 1a 792 2 ",
    "7a1e 2 d2 1 80 4 3 2 362 4 9 1 5c16 1 2 3 1 2a 1 9 d875 3e "], []⟩⟩,
  ⟨["nu", "numeric"], ["nd"], ⟨["600 6 65 2 70 1 1b2 2 50 1 10f7 1 f6e2 1 f 1 "], [(.v15, ["600 6 d7 1 1b2 2 50 1 10f7 1 f6e2 1 f 1 "])]⟩⟩,
  ⟨["sc", "scontinue"], [], ⟨[
    "2c 2 c 2 342 1 1de 1 ae 2 1ea 1 1009 1 5 1 80a 2 fec 1 ce0e 2 1 2 1c 2 1d 2 2 2 2 1 a 1 a8 ",
    "2 c 2 48 1 "], [(.v15, ["3b 1 342 1 fa95 1 3f 1 c6 1 "])]⟩⟩,
  ⟨["se", "sep"], [], ⟨["85 1 1fa2 2 "], []⟩⟩,
  ⟨["sp"], ["zs"], ⟨["9 1 1 2 "], []⟩⟩,
  ⟨["st", "sterm"], [], ⟨[
    "21 1 1d 1 549 1 93 3 b4 1 2b 3 f6 1 3d 1 1 1 3 2 125 2 6e4 2 316 1 4 2 305 1 c6 2 9d 2 2d 1 ",
    "5 1 13a 2 162 4 a2 2 a 2 2 2 1d 3 bb 2 41 2 3bc 2 9 3 caf 3 132 1 d 1 16 2 1ad 1 74fc 1 10e ",
    "2 e3 1 3 1 17e 2 56 2 5f 1 98 2 93 3 90 2 f9 1 5226 1 2 2 3f 2 a9 1 1d 1 41 1 af4 2 4fd 5 ",
    "2c 4 bd 2 75 4 7f 3 81 2 6 1 10 2 58 2 1 2 6c 1 12a 2 75 2 175 2 5 f 69 2 f9 3 205 1 1 1 fb ",
    "2 57 2 1a4 2 2b4 2 4a 2 4b29 2 85 1 41 2 b 1 229 2 128 1 4e06 1 1de8 1 "], [(.v15, ["17d4 2 1523 3 d116 1 2 2 "])]⟩⟩,
  ⟨["up", "upper"], ["lu", "lt"], ⟨["1c90 2b 2 3 4a0 10 346 1a 1cc60 1a 6 1a 6 1a "], []⟩⟩]

/-- The syllables of the Korean script, in an order in which each that ends in a vowel stands in front
of those that add a final consonant to it. -/
def hangulSyllables : CodeSet := .range 0xac00 0xd7a3

def openSyllables : CodeSet :=
  .unions ((List.range 399).map (fun i => .single (0xac00 + 28 * i)))

/-- The class of a name that says how characters join into what a reader sees as one. -/
def graphemeBreak? (v : Version) (name : String) : Option CodeSet :=
  if name = "lv" then some openSyllables
  else if name = "lvt" then some (hangulSyllables.diff openSyllables)
  else memberOf? graphemeBreaks v name

/-- The class of a name that says how characters join into words. -/
def wordBreak? (v : Version) (name : String) : Option CodeSet := memberOf? wordBreaks v name

/-- The class of a name that says how characters join into sentences. -/
def sentenceBreak? (v : Version) (name : String) : Option CodeSet := memberOf? sentenceBreaks v name

end PegGrammar.Unicode
