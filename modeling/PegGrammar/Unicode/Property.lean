import PegGrammar.Unicode.Category

/-!
# Properties of characters

Properties that a character has or has not. Most are close to a union of general categories, so each
is given by such a union and by where it differs from it. A version knows the properties that it has
characters with.
-/

namespace PegGrammar.Unicode

/-- A property: its names, the categories that it is close to, and where it differs from them. -/
structure Property where
  names : List String
  categories : List String
  changes : Table

def Property.members (p : Property) (v : Version) : CodeSet :=
  (CodeSet.unions (p.categories.filterMap (category? v))).symmDiff (p.changes.members v)

/-- The characters with the property of a name, out of some properties. -/
def memberOf? (properties : List Property) (v : Version) (name : String) : Option CodeSet := do
  let members := (← properties.find? (fun p => p.names.contains name)).members v
  if members.isEmpty then none else some members

def properties : List Property := [
  ⟨["ahex", "asciihexdigit"], [], ⟨["30 a 7 6 1a 6 "], []⟩⟩,
  ⟨["alpha", "alphabetic"], ["l", "nl", "m"], ⟨[
    "300 45 1 1d 120 7 107 1f a8 1 86 2 9 3 53 b a0 9 9 1 1a 2 13 1 2b 3 3c 8 2a a c 2 8 6 4c 1 ",
    "10 1 3 4 67 1 10 1 30 1 3d 1 10 1 6e 1 10 1 2f 3 3c 1 10 1 7 1 77 1 6e 1 10 1 6e 1 10 1 6d ",
    "2 10 1 7c 1 7c 6 1 1 6b 1 d 5 1 1 49 2 1b 1 1 1 1 1 4 2 44 1 1 2 3e 1 70 1 1 2 322 3 3b4 2 ",
    "1e 1 7f 2 13 b 9 1 2d 3 1 1 129 3 124 1 14 8 2 1 30 f 2 b 3 f 2 c 48 1 f 1 26 9 36 2 3a 1 b ",
    "2 43 1 98 3 1 15 4 1 6 1 2 3 c6 13 22 b 2d0 21 3c5 34 805 3 8d 1 2aa 6 69 2 75d4 4 9 2 72 2 ",
    "114 1 25 1 97 1 1b 12 39 3 25 1 5f 1 c 1 fe 1 1 1 34 1 f5 2 5212 10 10 10 3cd 1 e2 1 757 3 ",
    "4 1 a5 2 283 4 18f 3 46 b 31 4 c0 1 29 1 e 1 39 2 78 2 3e 1 4c 1 8 4 68 2 b2 2 50 2 10 1 18 ",
    "7 3 5 59 3 1 1 e 2 5f 1 3 1 17 1 63 2 fb 2 7e 1 76 2 73 1 10d 2 102 2 4 1 9c 1 52 2 12 1 50 ",
    "2 1a5 1 102 1 1 2 51 1 1a9 2 17 1 14e5 1 6 f 2cd9 1 9c0 5 3b 7 4ad 1 4cb8 1 1262 2e 2 17 ",
    "21e 5 3 6 8 8 2 7 1e 4 94 3 7bb 37 4 32 8 1 e 1 16 5 1 f 680 7 177 1 3d 4 1fc 4 fe 2 2e0 7 ",
    "6d 3 1 3 7e5 1a 6 1a 6 1a c0f76 f0 "], [(.v15, ["363 d 1a63 14 "])]⟩⟩,
  ⟨["bidic", "bidicontrol"], [], ⟨["61c 1 19f1 2 1a 5 37 4 "], []⟩⟩,
  ⟨["bidim", "bidimirrored"], ["ps", "pe", "pi", "pf"], ⟨[
    "3c 1 1 1 1fd9 8 120 1 c0 4 3 6 3 1 3 2 3 4 1 4 1 1 1 1 4 9 5 1 1 12 5 4 9 2 1 1 1 8 1 20 2 ",
    "4 5 1 9 2 2 13 5 2 9 5 2 2 4 18 2 10 20 2 49e 1 2 2 3 2 1 3 5 4 5 3 3 4 1b5 6 1 e 8 1 7 6 3 ",
    "1 4 5 1 2 6 1 4 1 1 3 2 2 a 6 10 13 1 4 2 1 1 1 2 1 1 4 5 2 6 3 18 2 b 2 4 4 1 2 2 2 4 2b 2 ",
    "8 1 28 5 1 1 1 3 5 5 3 4 1 3 5 1 1 100 1 243 1 1da 3 cd1e 2 d7 2 1c 10 2 2 1b 2 b6 1 1 1 ",
    "d7bc 1 39 1 39 1 39 1 39 1 "], [(.v15, ["226d 1 "])]⟩⟩,
  ⟨["ci", "caseignorable"], ["mn", "me", "cf", "lm", "sk"], ⟨[
    "27 1 6 1 b 1 7c 1 2cf 1 1d7 1 94 1 1a23 2 a 1 2 1 ddeb 1 3e 1 2 1 b1 1 6 1 b 1 "], []⟩⟩,
  ⟨["cased"], ["lu", "ll", "lt"], ⟨[
    "aa 1 f 1 1f5 9 7 2 1e 5 60 1 34 1 d81 1 c2f 3f d 1 22 25 2b1 1 d 1 10 d c3 20 336 34 792 2 ",
    "7a1e 2 d2 1 80 4 3 2 362 4 9 1 5c16 1 2 3 1 2a 1 9 d875 3e 10c2 1a 6 1a 6 1a "], []⟩⟩,
  ⟨["cwcf", "changeswhencasefolded"], ["lu", "lt"], ⟨[
    "b5 1 29 1 69 1 35 1 1c5 1 7c 1 d 7 19 2 3 1 191 1 e18 56 2 6 882 9 211 2 e4 8 8 8 8 8 a 3 2 ",
    "1 a 3 2 1 2a 3 2 1 10a 1 4 1 3 3 2 3 2 1 3 5 6 1 3 1 3 2 2 2 1 1 a 2 5 1 1a 10 346 1a 86a0 ",
    "50 4f40 7 c 5 d8e8 1a 1a 1a 1a 1a 1a 1 1 2 2 1 2 2 2 4 1 8 1a 1a 1a 2 1 4 2 8 1 7 1b 2 1 4 ",
    "1 5 1 1 3 7 1b 1a 1a 1a 1a 1a 1a 1a 1a 1a 1a 1a 1e 19 21 19 21 19 21 19 21 19 21 1 "], []⟩⟩,
  ⟨["cwcm", "changeswhencasemapped"], ["lu", "ll", "lt"], ⟨[
    "138 1 54 1 1c 2 e 1 3 1 62 1 12 6 1b 1 2 1 1 1 2 3 2 1 4 1 5 2 1 1 2 2 1 7 1 2 1 1 2 3 6 5 ",
    "1 1 2 7 2 11 95 1 8c 3 27 1 163 1 27 1 1777 2c 3f d 2 3 1 10 1 c 101 2 1 1 262 1 4 1 2 a 1 ",
    "1 3 5 6 1 3 1 3 2 1 3 1 2 4 1 2 4 5 5 16 20 336 34 787 1 2 1 2 5 68 1 7a4b 2 3f 8 15 1 6 1 ",
    "19 1 4a 1 335 23 1 7 5 9 12897 55 1 47 1 2 2 1 2 2 2 4 1 c 1 1 1 7 1 41 1 4 2 8 1 7 1 1c 1 ",
    "4 1 5 1 1 3 7 1 154 2 19 1 19 1 1f 1 19 1 1f 1 19 1 1f 1 19 1 1f 1 19 1 8 734 a 1 14 6 6 "], [(.v15, ["19b 1 c8 1 30 1 a53d 1 1 1 "]),
    (.v16, ["295 1 a53d 1 1 1 "])]⟩⟩,
  ⟨["cwl", "changeswhenlowercased"], ["lu", "lt"], ⟨[
    "3d2 3 1d2d 1 4 1 3 3 2 3 2 1 3 5 6 1 3 1 3 2 2 2 1 1 a 2 5 1 1a 10 346 1a 1af30 1a 1a 1a 1a ",
    "1a 1a 1 1 2 2 1 2 2 2 4 1 8 1a 1a 1a 2 1 4 2 8 1 7 1b 2 1 4 1 5 1 1 3 7 1b 1a 1a 1a 1a 1a ",
    "1a 1a 1a 1a 1a 1a 1e 19 21 19 21 19 21 19 21 19 21 1 "], []⟩⟩,
  ⟨["cwt", "changeswhentitlecased"], ["ll"], ⟨[
    "138 1 54 1 1c 2 e 1 3 1 5 1 2 1 2 1 26 1 2f 1 12 6 1b 1 2 1 1 1 2 3 2 1 4 1 5 2 1 1 2 2 1 7 ",
    "1 2 1 1 2 3 6 5 1 1 2 7 2 11 95 1 b6 1 163 1 27 1 b47 2b 2 3 c00 2c 3f d 2 3 1 10 1 c 101 2 ",
    "1 1 26a 1 3 2 3 1 1b 1 4 1 4 1 2 2 8 4 26 10 350 1a 787 1 2 1 2 5 68 1 7a4b 2 3f 8 15 1 6 1 ",
    "19 1 4a 1 335 23 1 7 5 9 128b1 1a 1a 7 1 12 1a 1a 1a 4 1 1 1 7 1 b 1a 1a 1a 1a 1a 1a 1a 1a ",
    "1a 1a 1a 1a 1a 1a 1a 1a 1a 1c 1c 19 1 6 1a 19 1 6 1a 19 1 6 1a 19 1 6 1a 19 1 6 1 1 734 a 1 ",
    "14 6 6 "], [(.v15, ["19b 1 c8 1 30 1 a53d 1 1 1 "]),
    (.v16, ["295 1 a53d 1 1 1 "])]⟩⟩,
  ⟨["cwu", "changeswhenuppercased"], ["ll", "lt"], ⟨[
    "138 1 54 1 1c 2 e 1 3 1 62 1 12 6 1b 1 2 1 1 1 2 3 2 1 4 1 5 2 1 1 2 2 1 7 1 2 1 1 2 3 6 5 ",
    "1 1 2 7 2 11 95 1 b6 1 163 1 27 1 1777 2c 3f d 2 3 1 10 1 c 101 2 1 1 26a 1 3 2 3 1 1b 1 4 ",
    "1 4 1 2 2 8 4 26 10 350 1a 787 1 2 1 2 5 68 1 7a4b 2 3f 8 15 1 6 1 19 1 4a 1 335 23 1 7 5 9 ",
    "128b1 1a 1a 7 1 12 1a 1a 1a 4 1 1 1 7 1 b 1a 1a 1a 1a 1a 1a 1a 1a 1a 1a 1a 1a 1a 1a 1a 1a ",
    "1a 1c 1c 19 1 6 1a 19 1 6 1a 19 1 6 1a 19 1 6 1a 19 1 6 1 1 734 a 1 14 6 6 "], [(.v15, ["19b 1 c8 1 30 1 a53d 1 1 1 "]),
    (.v16, ["295 1 a53d 1 1 1 "])]⟩⟩,
  ⟨["dash"], ["pd"], ⟨["2053 1 27 1 f 1 186 1 "], []⟩⟩,
  ⟨["di", "defaultignorablecodepoint"], [], ⟨[
    "ad 1 2a1 1 2cc 1 b42 2 653 2 55 5 7fb 5 1a 5 31 10 10f4 1 cc9b 10 ef 1 a0 1 4f 9 bca7 4 ",
    "14cf 8 c2e85 1000 "], []⟩⟩,
  ⟨["dep", "deprecated"], [], ⟨["149 1 529 1 903 1 1 1 829 2 8c5 6 2b9 2 ddcd6 1 "], []⟩⟩,
  ⟨["dia", "diacritic"], [], ⟨[
    "5e 1 1 1 47 1 6 1 4 1 2 2 1f7 9f 1 8 5 6 11 2 4 1 9 2 fd 5 d1 1 37 2d 1 1 1 2 1 2 1 1 83 8 ",
    "4 2 86 2 4 2 3 3 43 1b 5b b 3a b 22 2 7e 8 29 a 10 1c 3d 1 10 1 3 4 1c 1 4a 1 10 1 6e 1 10 ",
    "1 6e 1 10 1 2f 3 3c 1 10 1 7 1 77 1 6e 1 10 1 6e 1 10 1 6d 2 10 1 7c 1 6f 1 c 6 1 1 6b 1 d ",
    "5 4b 2 1b 1 1 1 1 1 4 2 42 3 1 2 3e 1 70 1 1 2 28 2 4 5 19 7 1 1 a 2 2c1 3 3b4 2 1e 1 94 b ",
    "9 1 15b 3 124 1 14 8 2 1 30 f 2 b 3 f 2 c 48 1 f 1 26 9 36 2 3a 1 b 2 42 2 40 6 52 19 4 1 6 ",
    "1 2 3 32 3f 30 24 5 c 25 b 1bd 1 1 3 b 3 d 3 d 3 d 2 cf0 3 13d 1 1fa 6 69 4 5f 1 7572 1 c 2 ",
    "1 1 1c 2 52 2 e 22 66 3 66 1 6 2 c 1 25 1 97 1 1b 12 39 4 24 1 5f 1 c 1 24 1 95 3 41 4 33 1 ",
    "64 5 9 3 80 2 4f30 1 301 10 10e 1 1 1 2f 1 2d 2 43 1 2fc 1 49f 6 1 2a 1 9 27d 3 4 1 a5 2 ",
    "23b 6 26 1 1a 5 18c 1 2 3 46 b 31 4 c0 1 29 1 48 2 78 2 3e 1 4c 1 9 3 68 2 b2 2 50 2 10 1 ",
    "18 7 3 5 59 3 1 2 d 2 5f 1 3 1 7b 2 fb 2 7e 1 76 2 73 1 10d 2 102 2 4 1 9c 1 53 1 12 1 51 1 ",
    "1a5 1 102 1 1 2 51 1 41 1 167 2 17 1 14ec f 2cd9 1 9c0 5 3b 7 234 2 222 11 50 2 3ffe 4 1 7 ",
    "1 2 1f01 2e 2 17 220 3 3 6 8 8 2 7 1e 4 e82 3e c2 7 177 1 3d 4 2fe 2 2e0 7 6d 3 1 3 "], [(.v15, [
      "5a2 1 22 1 1 1 872 1 8f9 1 32b 1 185 1 b 2 1a7 24 8a47 1 25 1 620b 3 4 1 8fb 1 c05 2 "])]⟩⟩,
  ⟨["emoji"], [], ⟨[
    "23 1 6 1 5 a 6f 1 4 1 1f8d 1 c 1 d8 1 16 1 5a 6 f 2 16f 2 c 1 a6 1 19 b 4 3 c7 1 e7 2 a 1 9 ",
    "1 3a 4 1 5 9 1 2 1 2 2 2 1 4 1 2 1 1 2 2 1 3 1 3 2 8 3 5 1 1 1 5 c b 2 2 1 1 2 1 1 12 1 2 2 ",
    "12 6 1 1 1 2 3 2 5 1 2 2 4 2 b 2 5 2 2 1 5 2 1 1 1 2 14 2 5 6 1 4 2 1 4 1 2 1 2 6 1 1 2 1 1 ",
    "1 1 1 6 1 3 1 6 1 a 2 f 1 2 1 4 1 1 1 4 3 1 1 b 2 30 3 9 1 e 1 e 1 174 2 1cf 3 13 2 33 1 4 ",
    "1 4da 1 c 1 259 1 1 1 1bd6a 1 ca 1 a0 2 c 2 e 1 2 a 4b 1a 1 2 17 1 14 1 2 9 15 2 ae 22 2 70 ",
    "2 2 1 3 2 53 2 3 1 107 1 3f b 6 1 18 7 2 2 8 c 1 2 4 2 1 4 2 d 2 2 1 8 2 9 1 5 3 c 3 8 3 2 ",
    "1 1 1 4 1 6 1 3 1 6 56 30 46 5 8 2 4 3 a 3 1 1 2 3 1 2 a e3 c 4 1 11b 2f 1 a 1 b9 70 d 3 b ",
    "3 39 1 1 4 10 2 c 4 a "], []⟩⟩,
  ⟨["ecomp", "emojicomponent"], [], ⟨[
    "23 1 6 1 5 a 1fd3 1 d5 1 dd2b 1 f3d6 1a 1fb 5 5b0 4 c066c 60 "], []⟩⟩,
  ⟨["emod", "emojimodifier"], [], ⟨["1f3fb 5 "], []⟩⟩,
  ⟨["ebase", "emojimodifierbase"], [], ⟨[
    "261d 1 db 1 10 4 1cc77 1 3c 3 2 1 2 3 75 2 2 b 15 13 3 1 4 3 1 3 7 1 1 1 18 1 c9 2 4 1 15 1 ",
    "4 2 ae 3 3 5 53 1 10 3 9 1 b 1 23f 1 2 1 8 8 6 1 9 a 2 3 38 1 3d 2 1 2 1 1 11 3 1 d e5 3 2a ",
    "9 "], []⟩⟩,
  ⟨["epres", "emojipresentation"], [], ⟨[
    "231a 2 cd 4 3 1 2 1 209 2 15 2 32 c 2b 1 13 1 d 1 8 2 11 2 5 2 8 1 5 1 15 1 7 2 1 1 4 1 2 1 ",
    "7 1 4 2 1c 1 23 1 1 1 4 3 1 1 3d 3 18 1 e 1 35b 2 33 1 4 1 1c4ae 1 ca 1 be 1 2 a 4b 1a 1 1 ",
    "18 1 14 1 2 5 1 3 15 2 ae 21 c 9 1 46 1 16 c 2b 4 5 c 11 3 1 3 47 1 1 1 bb 2 3f d 4 1 18 12 ",
    "1 1a 2 d 1 56 55 30 46 6 1 3 3 2 4 3 4 b 2 7 9 e3 c 4 1 11b 2f 1 a 1 b9 70 d 3 b 3 39 1 1 4 ",
    "10 2 c 4 a "], []⟩⟩,
  ⟨["extpict", "extendedpictographic"], [], ⟨[
    "a9 1 4 1 1f8d 1 c 1 d8 1 16 1 5a 6 f 2 16f 2 c 1 a6 1 19 b 4 3 c7 1 e7 2 a 1 9 1 3a 4 1 5 9 ",
    "1 2 1 2 2 2 1 4 1 2 1 1 2 2 1 3 1 3 2 8 3 5 1 1 1 5 c b 2 2 1 1 2 1 1 12 1 2 2 12 6 1 1 1 2 ",
    "3 2 5 1 2 2 4 2 b 2 5 2 2 1 5 2 1 1 1 2 14 2 5 6 1 4 2 1 4 1 2 1 2 6 1 1 2 1 1 1 1 1 6 1 3 ",
    "1 6 1 a 2 f 1 2 1 4 1 1 1 4 3 1 1 b 2 30 3 9 1 e 1 e 1 174 2 1cf 3 13 2 33 1 4 1 4da 1 c 1 ",
    "259 1 1 1 1bd6a 1 27 4 64 c f 2 f 1 e 2 25 a 70 2 c 2 e 1 2 a 13 38 1b f a 1 14 1 2 9 1 4 9 ",
    "17 6 bc 2 70 2 2 1 3 2 53 2 3 1 4 5 fe 1 3f b 6 1 18 7 2 2 8 c 1 2 4 2 1 4 2 d 2 2 1 8 2 9 ",
    "1 5 3 c 3 8 3 2 1 1 1 4 1 6 1 3 1 6 56 30 46 5 8 2 11 3 1 1 6 2 d da 26 c 4 38 8 a 6 28 8 ",
    "1e 2 c 4 2 e 9 27 c 2f 1 a 1 b9 58 8 e 92 100 3fe "], [(.v15, [
      "2388 1 27c 1 1 7 1 2 1 1 3 2 1 4 1 2 1 1 2 2 1 3 1 3 2 8 3 5 1 1 1 5 c b 2 2 1 1 2 1 1 12 ",
      "1 2 2 6 a 2 6 1 1 1 2 3 2 5 1 2 2 4 2 b 2 5 2 2 1 5 2 1 1 1 2 14 2 5 6 1 4 2 1 4 1 2 9 1 ",
      "1 2 53 3 1c898 4 1 27 4 64 c f 2 f 1 e 2 25 17 3 1f 1 3c 4 3d 1 b2 6 bc 2 70 2 2 1 3 2 53 ",
      "2 3 1 107 1 47 3 6 1 18 7 2 2 8 c 1 2 4 2 1 4 2 d 2 2 1 8 2 9 1 5 3 c 3 8 3 2 1 1 1 4 1 6 ",
      "1 3 1 6 cc 5 8 2 3 1 d 3 1 1 6 2 81 c 55 5 d6 c 4 2 e 9 127 58 8 e 1b 2 3 2 2e 1 7 1 1 1 ",
      "4 1 e 1 2 1 9 2 4 1 "]),
    (.v16, [
      "2388 1 27c 1 1 7 1 2 1 1 3 2 1 4 1 2 1 1 2 2 1 3 1 3 2 8 3 5 1 1 1 5 c b 2 2 1 1 2 1 1 12 ",
      "1 2 2 6 a 2 6 1 1 1 2 3 2 5 1 2 2 4 2 b 2 5 2 2 1 5 2 1 1 1 2 14 2 5 6 1 4 2 1 4 1 2 9 1 ",
      "1 2 53 3 1c898 4 1 27 4 64 c f 2 f 1 e 2 25 17 3 1f 1 3c 4 3d 1 b2 6 bc 2 70 2 2 1 3 2 53 ",
      "2 3 1 107 1 47 3 6 1 18 7 2 2 8 c 1 2 4 2 1 4 2 d 2 2 1 8 2 9 1 5 3 c 3 8 3 2 1 1 1 4 1 6 ",
      "1 3 1 6 cc 5 8 2 3 1 d 3 1 1 6 2 81 c 55 5 d6 c 4 2 e 9 127 58 8 e 1c 1 3 1 39 1 4 1 1c 1 ",
      "4 1 "])]⟩⟩,
  ⟨["ext", "extender"], [], ⟨[
    "b7 1 218 2 36e 1 1b9 1 276 1 89 1 59 1 2f0 1 7f 1 943 1 38 1 263 1 18e 1 44 1 1389 1 2b 5 ",
    "67 2 5d 3 6f16 1 5f6 1 3c2 1 16 1 89 1 6c 1 15 2 547b 1 810 2 5cb 1 1b 1 4 1 4c7 1 125 1 74 ",
    "2 1f2 3 4cf 1 340 1 4d68 2 49c 2 1 1 e 2 7148 2 4b1 1 354 3 "], [(.v15, ["a71 1 89 1 1073b 1 "])]⟩⟩,
  ⟨["grbase", "graphemebase"], ["l", "mc", "n", "p", "s", "zs"], ⟨[
    "9be 1 18 1 166 1 18 1 66 1 18 1 e8 1 1 1 4 2 1 2 9 2 67 1 18 1 77 1 f 1 935 1 1e 1 400 1 5 ",
    "1 1 1 5 2 65 1 47 2 143a 2 7923 1 6c 1 55dd 2 1220 1 74 1 108 1 e 1 9 1 60 1 9 1 2 1 1 3 5 ",
    "1 e0 1 c 1 f1 1 106 1 279 1 c 1 603 1 50ae 2 6173 2 6 6 "], [(.v15, [
      "cc0 1 6 2 1 2 a49 1 1e 1 406 1 1 1 5 2 65 1 47 2 8d5f 1 6c 1 67ff 1 74 1 117 1 368 1 286 ",
      "1 603 1 50ae 2 6174 1 6 1 "])]⟩⟩,
  ⟨["grext", "graphemeextend"], ["mn", "me"], ⟨[
    "9be 1 18 1 166 1 18 1 66 1 18 1 e8 1 1 1 4 2 1 2 9 2 67 1 18 1 77 1 f 1 935 1 1e 1 400 1 5 ",
    "1 1 1 5 2 65 1 47 2 418 1 1021 2 7923 1 6c 1 55dd 2 1220 1 74 1 108 1 e 1 9 1 60 1 9 1 2 1 ",
    "1 3 5 1 e0 1 c 1 f1 1 106 1 279 1 c 1 603 1 50ae 2 6173 2 6 6 c2ead 60 "], [(.v15, [
      "cc0 1 6 2 1 2 a49 1 1e 1 406 1 1 1 5 2 65 1 47 2 8d5f 1 6c 1 67ff 1 74 1 117 1 368 1 286 ",
      "1 603 1 50ae 2 6174 1 6 1 "])]⟩⟩,
  ⟨["grlink", "graphemelink"], [], ⟨[
    "94d 1 7f 1 7f 1 7f 1 7f 1 7f 1 7f 1 7f 1 6d 2 10 1 7c 1 6f 1 7f 1 c9 1 b4 2 6d9 2 1e 1 9d 1 ",
    "28d 1 e3 1 65 2 46 2 118b 1 7a86 1 25 1 97 1 8e 1 6c 1 135 1 f6 1 5e51 1 606 1 29 1 e 1 39 ",
    "1 79 2 8b 1 74 1 b4 1 62 1 80 3 71 1 7f 1 fc 1 7f 1 76 1 74 1 10d 1 103 2 a1 1 53 1 12 1 51 ",
    "1 1a5 1 104 2 51 1 1a9 2 41ec 1 "], []⟩⟩,
  ⟨["hex", "hexdigit"], [], ⟨["30 a 7 6 1a 6 fea9 a 7 6 1a 6 "], []⟩⟩,
  ⟨["hyphen"], [], ⟨[
    "2d 1 7f 1 4dc 1 127b 1 809 2 e05 1 2e3 1 cd67 1 a9 1 57 1 "], []⟩⟩,
  ⟨["idsb", "idsbinaryoperator"], [], ⟨["2ff0 2 2 a 1f1 1 "], []⟩⟩,
  ⟨["idst", "idstrinaryoperator"], [], ⟨["2ff2 2 "], []⟩⟩,
  ⟨["idsu", "idsunaryoperator"], [], ⟨["2ffe 2 "], []⟩⟩,
  ⟨["idcompatmathcontinue"], [], ⟨[
    "b2 2 5 1 1fb6 1 3 b 1 f 173 1 4 1 16 1 1b4a2 1 19 1 1f 1 19 1 1f 1 19 1 1f 1 19 1 1f 1 19 1 "], [(.v15, [
      "b2 2 5 1 1fb6 1 3 b 1 f 173 1 4 1 16 1 1b4a2 1 19 1 1f 1 19 1 1f 1 19 1 1f 1 19 1 1f 1 19 ",
      "1 "])]⟩⟩,
  ⟨["idcompatmathstart"], [], ⟨[
    "2202 1 4 1 16 1 1b4a2 1 19 1 1f 1 19 1 1f 1 19 1 1f 1 19 1 1f 1 19 1 "], [(.v15, [
      "2202 1 4 1 16 1 1b4a2 1 19 1 1f 1 19 1 1f 1 19 1 1f 1 19 1 1f 1 19 1 "])]⟩⟩,
  ⟨["idc", "idcontinue"], ["l", "nl", "m", "nd", "pc"], ⟨[
    "b7 1 2cf 1 100 2 edf 9 668 1 e3 1 54d 2 cf 4 1 3 33 1 15 1 d00 1 26b 2 5e 1 7574 3 58f2 1 "], [(.v15, ["200c 2 10ed 1 ce69 1 "])]⟩⟩,
  ⟨["ids", "idstart"], ["l", "nl"], ⟨["1885 2 891 1 15 1 d00 1 26b 2 "], []⟩⟩,
  ⟨["ideo", "ideographic"], [], ⟨[
    "3006 2 19 9 e 3 3c5 19c0 40 5200 5900 16e 2 6a 750a 1 d 5 9 1cd6 29 20 61 73 237d 18c 4d04 ",
    "a6e0 20 111e 2 168e 2 1d31 f 26e 9a2 21e 5e2 134b 5 212a "], []⟩⟩,
  ⟨["joinc", "joincontrol"], [], ⟨["200c 2 "], []⟩⟩,
  ⟨["loe", "logicalorderexception"], [], ⟨["e40 5 7b 5 af0 3 2 1 90fa 2 2 1 1 2 "], []⟩⟩,
  ⟨["lower", "lowercase"], ["ll"], ⟨[
    "aa 1 f 1 1f5 9 7 2 1e 5 60 1 34 1 d81 1 c2f 3f d 1 22 25 2b1 1 d 1 10 d d3 10 350 1a 792 2 ",
    "7a1e 2 d2 1 80 4 3 2 362 4 9 1 5c16 1 2 3 1 2a 1 9 d875 3e "], []⟩⟩,
  ⟨["math"], ["sm"], ⟨[
    "5e 1 371 3 2 1 1a 2 2 2 1c20 1 1b 3 b 1 20 4 18 2 e 2 41 d 4 1 3 2 4 5 12 1 4 1 2 a 1 1 3 5 ",
    "6 1 3 2 2 2 1 3 1 6 3 4 5 5 4b 5 2 4 1 2 1 2 1 1 1 5 2 2 4 2 4 12 2 2 1 1 1 7 1 1 6 2 122 4 ",
    "a8 2 1 1 18 1 11 1 1bd 2 c 9 5 5 5 2 2 2 3 5 e 1 1 1 2 6 18 2 39 1 1 1 1d 4 9 2 156 2 1f a ",
    "193 16 3f 4 20 2 d463 1 1 1 4 1 d3 1 1 1 d4c1 55 1 47 1 2 2 1 2 2 2 4 1 c 1 1 1 7 1 41 1 4 ",
    "2 8 1 7 1 1c 1 4 1 5 1 1 3 7 1 154 2 19 1 19 1 1f 1 19 1 1f 1 19 1 1f 1 19 1 1f 1 19 1 8 2 ",
    "32 1600 4 1 1b 1 2 1 1 2 1 1 a 1 4 1 1 1 1 6 1 4 1 1 1 1 1 1 3 1 2 1 1 2 1 1 1 1 1 1 1 1 1 ",
    "1 2 1 1 2 4 1 7 1 4 1 4 1 1 1 a 1 11 5 3 1 5 1 11 "], []⟩⟩,
  ⟨["mcm", "modifiercombiningmark"], [], ⟨["654 2 2 1 83 1 6 1 3 2 1e1 2 1 3 3 1 1f 1 "], [(.v15, ["654 2 2 1 83 1 6 1 3 2 1e1 2 1 3 3 1 1f 1 "])]⟩⟩,
  ⟨["nchar", "noncharactercodepoint"], [], ⟨[
    "fdd0 20 20e 2 fffe 2 fffe 2 fffe 2 fffe 2 fffe 2 fffe 2 fffe 2 fffe 2 fffe 2 fffe 2 fffe 2 ",
    "fffe 2 fffe 2 fffe 2 fffe 2 fffe 2 "], []⟩⟩,
  ⟨["oalpha", "otheralphabetic"], ["m"], ⟨[
    "300 45 1 1d 120 7 107 1f a8 1 86 2 9 3 53 b a0 9 9 1 1a 2 13 1 2b 3 3c 8 2a a c 2 8 6 4c 1 ",
    "10 1 3 4 67 1 10 1 30 1 3d 1 10 1 6e 1 10 1 2f 3 3c 1 10 1 7 1 77 1 6e 1 10 1 6e 1 10 1 6d ",
    "2 10 1 7c 1 7c 6 1 1 6b 1 d 5 1 1 49 2 1b 1 1 1 1 1 4 2 44 1 1 2 3e 1 70 1 1 2 322 3 3b4 2 ",
    "1e 1 7f 2 13 b 9 1 2d 3 1 1 129 3 124 1 14 8 2 1 30 f 2 b 3 f 2 c 48 1 f 1 26 9 36 2 3a 1 b ",
    "2 43 1 98 3 1 15 4 1 6 1 2 3 c6 13 22 b 2d0 21 3c5 34 805 3 8d 1 2aa 6 69 2 75d4 4 9 2 72 2 ",
    "114 1 25 1 97 1 1b 12 39 3 25 1 5f 1 c 1 fe 1 1 1 34 1 f5 2 5212 10 10 10 3cd 1 e2 1 757 3 ",
    "4 1 a5 2 283 4 18f 3 46 b 31 4 c0 1 29 1 e 1 39 2 78 2 3e 1 4c 1 8 4 68 2 b2 2 50 2 10 1 18 ",
    "7 3 5 59 3 1 1 e 2 5f 1 3 1 17 1 63 2 fb 2 7e 1 76 2 73 1 10d 2 102 2 4 1 9c 1 52 2 12 1 50 ",
    "2 1a5 1 102 1 1 2 51 1 1a9 2 17 1 14e5 1 6 f 2cd9 1 9c0 5 3b 7 4ad 1 4cb8 1 1262 2e 2 17 ",
    "21e 5 3 6 8 8 2 7 1e 4 94 3 7bb 37 4 32 8 1 e 1 16 5 1 f 680 7 177 1 3d 4 1fc 4 fe 2 2e0 7 ",
    "6d 3 1 3 7e5 1a 6 1a 6 1a c0f76 f0 "], [(.v15, ["363 d 1a63 14 "])]⟩⟩,
  ⟨["odi", "otherdefaultignorablecodepoint"], [], ⟨[
    "34f 1 e0f 2 653 2 8af 1 10fe 1 ce3b 1 4f 9 d0007 1 1 1e 60 80 f0 e10 "], []⟩⟩,
  ⟨["ogrext", "othergraphemeextend"], [], ⟨[
    "9be 1 18 1 166 1 18 1 66 1 18 1 e8 1 1 1 4 2 1 2 9 2 67 1 18 1 77 1 f 1 935 1 1e 1 400 1 5 ",
    "1 1 1 5 2 65 1 47 2 418 1 1021 2 7923 1 6c 1 55dd 2 1220 1 74 1 108 1 e 1 9 1 60 1 9 1 2 1 ",
    "1 3 5 1 e0 1 c 1 f1 1 106 1 279 1 c 1 603 1 50ae 2 6173 2 6 6 c2ead 60 "], [(.v15, [
      "cc0 1 6 2 1 2 a49 1 1e 1 406 1 1 1 5 2 65 1 47 2 8d5f 1 6c 1 67ff 1 74 1 117 1 368 1 286 ",
      "1 603 1 50ae 2 6174 1 6 1 "])]⟩⟩,
  ⟨["oidc", "otheridcontinue"], [], ⟨["b7 1 2cf 1 fe1 9 668 1 631 2 10ed 1 ce69 1 "], [(.v15, ["200c 2 10ed 1 ce69 1 "])]⟩⟩,
  ⟨["oids", "otheridstart"], [], ⟨["1885 2 891 1 15 1 f6c 2 "], []⟩⟩,
  ⟨["olower", "otherlowercase"], [], ⟨[
    "aa 1 f 1 1f5 9 7 2 1e 5 60 1 34 1 d81 1 c2f 3f d 1 22 25 2b1 1 d 1 10 d d3 10 350 1a 792 2 ",
    "7a1e 2 d2 1 80 4 3 2 362 4 9 1 5c16 1 2 3 1 2a 1 9 d875 3e "], []⟩⟩,
  ⟨["omath", "othermath"], [], ⟨[
    "5e 1 371 3 2 1 1a 2 2 2 1c20 1 1b 3 b 1 20 4 18 2 e 2 41 d 4 1 3 2 4 5 12 1 4 1 2 a 1 1 3 5 ",
    "6 1 3 2 2 2 1 3 1 6 3 4 5 5 4b 5 2 4 1 2 1 2 1 1 1 5 2 2 4 2 4 12 2 2 1 1 1 7 1 1 6 2 122 4 ",
    "a8 2 1 1 18 1 11 1 1bd 2 c 9 5 5 5 2 2 2 3 5 e 1 1 1 2 6 18 2 39 1 1 1 1d 4 9 2 156 2 1f a ",
    "193 16 3f 4 20 2 d463 1 1 1 4 1 d3 1 1 1 d4c1 55 1 47 1 2 2 1 2 2 2 4 1 c 1 1 1 7 1 41 1 4 ",
    "2 8 1 7 1 1c 1 4 1 5 1 1 3 7 1 154 2 19 1 19 1 1f 1 19 1 1f 1 19 1 1f 1 19 1 1f 1 19 1 8 2 ",
    "32 1600 4 1 1b 1 2 1 1 2 1 1 a 1 4 1 1 1 1 6 1 4 1 1 1 1 1 1 3 1 2 1 1 2 1 1 1 1 1 1 1 1 1 ",
    "1 2 1 1 2 4 1 7 1 4 1 4 1 1 1 a 1 11 5 3 1 5 1 11 "], []⟩⟩,
  ⟨["oupper", "otheruppercase"], [], ⟨["2160 10 346 1a 1cc60 1a 6 1a 6 1a "], []⟩⟩,
  ⟨["patsyn", "patternsyntax"], [], ⟨[
    "21 f a 7 1a 4 1 1 1a 4 22 7 1 1 1 2 1 1 1 2 4 1 4 1 3 1 17 1 1f 1 1f18 18 8 f 2 13 1 a 131 ",
    "2d0 a0 276 1e 46c 200 80 181 3 4 19 f 1 cd0d 2 105 2 "], [(.v15, ["2427 3 76c 1 "]),
    (.v16, ["2b96 1 "])]⟩⟩,
  ⟨["patws", "patternwhitespace"], [], ⟨["9 5 12 1 64 1 1f88 2 18 2 "], []⟩⟩,
  ⟨["pcm", "prependedconcatenationmark"], [], ⟨["600 6 d7 1 31 1 180 2 50 1 107da 1 f 1 "], []⟩⟩,
  ⟨["qmark", "quotationmark"], [], ⟨[
    "22 1 4 1 83 1 f 1 1f5c 8 19 2 e07 1 1c9 4 d 3 ce21 4 bd 1 4 1 5a 2 "], []⟩⟩,
  ⟨["radical"], [], ⟨["2e80 1a 1 59 c d6 "], []⟩⟩,
  ⟨["ri", "regionalindicator"], [], ⟨["1f1e6 1a "], []⟩⟩,
  ⟨["sterm", "sentenceterminal"], [], ⟨[
    "21 1 c 1 10 1 549 1 93 3 b4 1 2b 3 f6 1 3d 1 1 1 3 2 125 2 6e4 2 316 1 4 2 305 1 c6 2 9d 2 ",
    "2d 1 5 1 13a 2 162 4 a2 2 a 2 2 2 1d 3 bb 2 41 2 3a4 1 17 2 9 3 caf 3 132 1 d 1 16 2 1ad 1 ",
    "74fc 1 10e 2 e3 1 3 1 17e 2 56 2 5f 1 98 2 93 3 90 2 f9 1 5226 1 2 2 3b 1 3 2 a9 1 c 1 10 1 ",
    "41 1 af4 2 4fd 5 2c 4 bd 2 75 4 7f 3 81 2 6 1 10 2 58 2 1 2 6c 1 12a 2 75 2 175 2 5 f 69 2 ",
    "f9 3 205 1 1 1 fb 2 57 2 1a4 2 2b4 2 4a 2 4b29 2 85 1 41 2 b 1 229 2 128 1 4e06 1 1de8 1 "], [(.v15, ["17d4 2 84e 1 cd4 3 d116 1 2 2 "])]⟩⟩,
  ⟨["sd", "softdotted"], [], ⟨[
    "69 2 c4 1 119 1 1e 1 34 1 14 1 140 1 62 1 1 1 1909 1 33 1 d 1 3 1 84 1 9d 1 1a5 1 d6 2 b32 ",
    "1 1a7a5 2 32 2 32 2 32 2 32 2 32 2 32 2 32 2 32 2 32 2 32 2 32 2 32 2 886 1 131 2 1a 1 "], []⟩⟩,
  ⟨["term", "terminalpunctuation"], [], ⟨[
    "21 1 a 1 1 1 b 2 3 1 33e 1 8 1 201 1 39 1 48 1 e 1 1 3 b4 1 2b b 1 1 eb 2 36 6 1 8 1f 1 105 ",
    "2 4f4 2 ac 1 4 6 137 2 315 8 305 1 7c 3 47 2 9d 3 3 1 27 4 2 2 13a 2 162 4 a2 2 a 2 1 3 1d ",
    "3 bb 5 3e 2 3a4 1 17 2 9 3 caf 3 132 1 d 1 4 1 a 1 1 2 3 2 1ac 2 74fb 2 10d 3 e3 5 17e 2 56 ",
    "2 5f 1 97 3 93 3 7f 1 10 2 f9 1 5226 1 2 2 39 3 1 4 a9 1 a 1 1 1 b 2 3 1 41 1 2 1 43a 1 30 ",
    "1 486 1 c7 1 136 2 98 6 44 6 59 4 3b8 5 2c 4 bd 7 70 4 7f 3 81 2 6 1 10 2 58 5 6c 1 12a 2 ",
    "75 3 c 2 166 4 3 f 69 2 f9 3 205 1 1 1 fb 2 57 2 4 2 19e 3 2d 1 285 2 4a 2 52b 5 45f9 2 85 ",
    "1 41 3 a 1 229 2 127 2 4e06 1 1de7 4 "], [(.v15, ["836 1 17ed 1 cd4 3 d116 1 2 2 "])]⟩⟩,
  ⟨["uideo", "unifiedideograph"], [], ⟨[
    "3400 19c0 40 5200 5a0e 2 1 1 1 2 a 1 1 1 1 2 2 3 105d6 a6e0 20 111e 2 168e 2 1d31 f 26e ",
    "11a2 134b 5 212a "], []⟩⟩,
  ⟨["upper", "uppercase"], ["lu"], ⟨["2160 10 346 1a 1cc60 1a 6 1a 6 1a "], []⟩⟩,
  ⟨["vs", "variationselector"], [], ⟨["180b 3 1 1 e5f0 10 d02f0 f0 "], []⟩⟩,
  ⟨["wspace", "whitespace", "space"], ["zs"], ⟨["9 5 77 1 1fa2 2 "], []⟩⟩,
  ⟨["xidc", "xidcontinue"], ["l", "nl", "m", "nd", "pc"], ⟨[
    "b7 1 2c2 1 c 1 100 2 edf 9 668 1 e3 1 54d 2 cf 4 1 3 33 1 15 1 d00 1 2cb 1 7574 3 55eb 6 ",
    "196 2 74 1 1 1 1 1 1 1 1 1 1 1 1 1 1 1 e6 1 "], [(.v15, ["200c 2 10ed 1 ce69 1 "])]⟩⟩,
  ⟨["xids", "xidstart"], ["l", "nl"], ⟨[
    "37a 1 ab8 1 7f 1 9d1 2 891 1 15 1 d00 1 ce2e 6 196 2 74 1 1 1 1 1 1 1 1 1 1 1 1 1 1 1 11f 2 "], []⟩⟩]

/-- The characters with the property of a name, which is written in lower case and without
divisions. -/
def property? (v : Version) (name : String) : Option CodeSet := memberOf? properties v name

def whiteSpace : CodeSet := (property? .v17 "whitespace").getD .empty

def digits (v : Version) : CodeSet := (category? v "nd").getD .empty

/-- The characters that words are made of: letters and marks, decimal digits, the punctuation that
connects, and the invisible joiners. -/
def wordCharacters (v : Version) : CodeSet :=
  .unions (["alphabetic", "joincontrol"].filterMap (property? v)
    ++ ["m", "nd", "pc"].filterMap (category? v))

end PegGrammar.Unicode
