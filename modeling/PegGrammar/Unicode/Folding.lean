import PegGrammar.Unicode.Version

/-!
# Letter case

Characters that differ only in case form orbits. Nearly all orbits are pairs, and the pairs come in
runs in which the first members are evenly spaced and the second ones lie at a fixed distance. An
orbit of an earlier version has the members that this version has.
-/

namespace PegGrammar.Unicode

/-- Runs of pairs: the first member of the first pair, how many pairs, how far apart they are, and
how far the second members lie from the first. -/
def pairRuns : List String := [
  "41 a 1 20 4c 7 1 20 54 7 1 20 c0 5 1 20 c6 11 1 20 d8 7 1 20 df 1 1 1dbf ff 1 1 79 100 18 2 1 ",
  "132 3 2 1 139 8 2 1 14a 17 2 1 179 3 2 1 180 1 1 c3 181 1 1 d2 182 2 2 1 186 1 1 ce 187 1 1 1 ",
  "189 2 1 cd 18b 1 1 1 18e 1 1 4f 18f 1 1 ca 190 1 1 cb 191 1 1 1 193 1 1 cd 194 1 1 cf 195 1 1 ",
  "61 196 1 1 d3 197 1 1 d1 198 1 1 1 19a 1 1 a3 19b 1 1 a641 19c 1 1 d3 19d 1 1 d5 19e 1 1 82 ",
  "19f 1 1 d6 1a0 3 2 1 1a6 1 1 da 1a7 1 1 1 1a9 1 1 da 1ac 1 1 1 1ae 1 1 da 1af 1 1 1 1b1 2 1 ",
  "d9 1b3 2 2 1 1b7 1 1 db 1b8 1 1 1 1bc 1 1 1 1bf 1 1 38 1cd 8 2 1 1de 9 2 1 1f4 1 1 1 1f8 14 2 ",
  "1 222 9 2 1 23a 1 1 2a2b 23b 1 1 1 23e 1 1 2a28 23f 2 1 2a3f 241 1 1 1 244 1 1 45 245 1 1 47 ",
  "246 5 2 1 250 1 1 2a1f 251 1 1 2a1c 252 1 1 2a1e 25c 1 1 a54f 261 1 1 a54b 264 1 1 a567 265 1 ",
  "1 a528 266 1 1 a544 26a 1 1 a544 26b 1 1 29f7 26c 1 1 a541 271 1 1 29fd 27d 1 1 29e7 282 1 1 ",
  "a543 287 1 1 a52a 29d 1 1 a515 29e 1 1 a512 370 2 2 1 376 1 1 1 37b 3 1 82 37f 1 1 74 386 1 1 ",
  "26 388 3 1 25 38c 1 1 40 38e 2 1 3f 390 1 1 1c43 391 2 2 20 394 2 2 20 397 1 1 20 39b 2 2 20 ",
  "39e 2 1 20 3a4 2 1 20 3a7 2 1 20 3aa 2 1 20 3b0 1 1 1c33 3cf 1 1 8 3d8 c 2 1 3f2 1 1 7 3f7 1 ",
  "1 1 3fa 1 1 1 400 10 1 50 410 2 1 20 413 2 2 20 416 8 1 20 41f 2 1 20 423 7 1 20 42b 5 1 20 ",
  "460 1 1 1 464 f 2 1 48a 1b 2 1 4c0 1 1 f 4c1 7 2 1 4d0 30 2 1 531 26 1 30 10a0 26 1 1c60 10c7 ",
  "1 1 1c60 10cd 1 1 1c60 10d0 2b 1 bc0 10fd 3 1 bc0 13a0 50 1 97d0 13f0 6 1 8 1c89 1 1 1 1d79 1 ",
  "1 8a04 1d7d 1 1 ee6 1d8e 1 1 8a38 1e00 30 2 1 1e62 1a 2 1 1ea0 30 2 1 1f00 8 1 8 1f10 6 1 8 ",
  "1f20 8 1 8 1f30 8 1 8 1f40 6 1 8 1f51 4 2 8 1f60 8 1 8 1f70 2 1 4a 1f72 4 1 56 1f76 2 1 64 ",
  "1f78 2 1 80 1f7a 2 1 70 1f7c 2 1 7e 1f80 8 1 8 1f90 8 1 8 1fa0 8 1 8 1fb0 2 1 8 1fb3 1 1 9 ",
  "1fc3 1 1 9 1fd0 2 1 8 1fe0 2 1 8 1fe5 1 1 7 1ff3 1 1 9 2132 1 1 1c 2160 10 1 10 2183 1 1 1 ",
  "24b6 1a 1 1a 2c00 30 1 30 2c60 1 1 1 2c67 3 2 1 2c72 1 1 1 2c75 1 1 1 2c80 32 2 1 2ceb 2 2 1 ",
  "2cf2 1 1 1 a640 5 2 1 a64c 11 2 1 a680 e 2 1 a722 7 2 1 a732 1f 2 1 a779 2 2 1 a77e 5 2 1 ",
  "a78b 1 1 1 a790 2 2 1 a794 1 1 30 a796 a 2 1 a7b3 1 1 3a0 a7b4 8 2 1 a7c7 2 2 1 a7cc 8 2 1 ",
  "a7f5 1 1 1 fb05 1 1 1 ff21 1a 1 20 10400 28 1 28 104b0 24 1 28 10570 b 1 27 1057c f 1 27 ",
  "1058c 7 1 27 10594 2 1 27 10c80 33 1 40 10d50 16 1 20 118a0 20 1 20 16e40 20 1 20 16ea0 19 1 ",
  "1b 1e900 22 1 22 "]

/-- Orbits of more than two characters, each behind its size. -/
def largeOrbits : List String := [
  "3 4b 6b 212a 3 53 73 17f 3 b5 39c 3bc 3 c5 e5 212b 3 1c4 1c5 1c6 3 1c7 1c8 1c9 3 1ca 1cb 1cc ",
  "3 1f1 1f2 1f3 4 345 399 3b9 1fbe 3 392 3b2 3d0 3 395 3b5 3f5 4 398 3b8 3d1 3f4 3 39a 3ba 3f0 ",
  "3 3a0 3c0 3d6 3 3a1 3c1 3f1 3 3a3 3c2 3c3 3 3a6 3c6 3d5 3 3a9 3c9 2126 3 412 432 1c80 3 414 ",
  "434 1c81 3 41e 43e 1c82 3 421 441 1c83 4 422 442 1c84 1c85 3 42a 44a 1c86 3 462 463 1c87 3 ",
  "1c88 a64a a64b 3 1e60 1e61 1e9b "]

/-- The first members of the pairs that version 15 does not take for a pair yet. -/
def unpaired15 : List Nat := [0x390, 0x3b0, 0xfb05]

def pairsOfRuns : List Nat → List (List Nat)
  | first :: count :: stride :: distance :: rest =>
    (List.range count).map (fun i => [first + i * stride, first + i * stride + distance])
      ++ pairsOfRuns rest
  | _ => []

/-- Cuts a list into orbits, each of which follows its size. -/
def orbitsOfSizes : Nat → List Nat → List (List Nat)
  | fuel + 1, size :: rest => rest.take size :: orbitsOfSizes fuel (rest.drop size)
  | _, _ => []

/-- All orbits of more than one character in the latest version. -/
def orbits17 : List (List Nat) :=
  let sizes := CodeSet.tableNumbers largeOrbits
  pairsOfRuns (CodeSet.tableNumbers pairRuns) ++ orbitsOfSizes sizes.length sizes

def orbitsWithout (missing : CodeSet) (orbits : List (List Nat)) : List (List Nat) :=
  (orbits.map (fun orbit => orbit.filter (fun n => !missing.containsCode n))).filter
    (fun orbit => 2 ≤ orbit.length)

def orbits16 : List (List Nat) := orbitsWithout addedAfter16 orbits17

def orbits15 : List (List Nat) :=
  (orbitsWithout addedAfter15 orbits17).filter (fun orbit =>
    !unpaired15.contains (orbit.headD 0))

def orbits : Version → List (List Nat)
  | .v15 => orbits15
  | .v16 => orbits16
  | .v17 => orbits17

/-- The characters that differ from a given one at most in case. -/
def caseOrbit (v : Version) (n : Nat) : List Nat :=
  ((orbits v).find? (fun orbit => orbit.contains n)).getD [n]

end PegGrammar.Unicode

namespace PegGrammar.CodeSet

/-- The bounds of a set of code points that are given in increasing order. -/
def boundsOfSorted : List Nat → List Nat
  | [] => []
  | n :: ns =>
    match boundsOfSorted ns with
    | m :: bounds => if m = n + 1 then n :: bounds else n :: (n + 1) :: m :: bounds
    | [] => [n, n + 1]

/-- The members of a set, and all characters that differ from one of them only in case. -/
def foldCase (v : Unicode.Version) (s : CodeSet) : CodeSet :=
  let added := ((Unicode.orbits v).filter (fun orbit => orbit.any s.containsCode)).flatten
  s.union ⟨boundsOfSorted (added.mergeSort (fun a b => decide (a ≤ b)))⟩

end PegGrammar.CodeSet
