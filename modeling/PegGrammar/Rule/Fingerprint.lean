import PegGrammar.Rule.Basic
import PegGrammar.Digest.Sha256
import PegGrammar.Json.Quoted

/-!
# Fingerprints

The fingerprint of a rule is a digest of its structure. What is digested starts with a letter for
the kind of the node; texts, lists and maps give their length in front of their parts, so no two
ways to split a text agree; the items of a list are written out, while the values of a map are
replaced by their own digests.
-/

namespace PegGrammar.Rule

/-- A length as eight bytes, the lowest first. -/
def lengthBytes (n : Nat) : List UInt8 :=
  [0, 8, 16, 24, 32, 40, 48, 56].map (fun shift => (n >>> shift).toUInt8)

/-- A text behind its length in bytes. -/
def textBytes (s : String) : List UInt8 := lengthBytes s.utf8ByteSize ++ s.toUTF8.toList

mutual

/-- The bytes that stand for a rule, where `digest` shortens the values of maps. -/
def encode (digest : List UInt8 → List UInt8) : Rule → List UInt8
  | .text s => 's'.toNat.toUInt8 :: textBytes s
  | .list items => 'l'.toNat.toUInt8 :: (lengthBytes items.length ++ encodeItems digest items)
  | .map entries => 'm'.toNat.toUInt8 :: (lengthBytes entries.length ++ encodeEntries digest entries)

/-- The items of a list, one behind the other. -/
def encodeItems (digest : List UInt8 → List UInt8) : List Rule → List UInt8
  | [] => []
  | item :: items => encode digest item ++ encodeItems digest items

/-- The entries of a map: each key behind its length, then the digest of its value. -/
def encodeEntries (digest : List UInt8 → List UInt8) : List (String × Rule) → List UInt8
  | [] => []
  | (key, value) :: entries =>
    textBytes key ++ digest (encode digest value) ++ encodeEntries digest entries

end

end PegGrammar.Rule

namespace PegGrammar

/-- The digest of a rule's structure. -/
structure Fingerprint where
  bytes : List UInt8
  deriving DecidableEq

namespace Fingerprint

/-- The digest of the bytes that stand for a rule. -/
def ofRule (r : Rule) : Fingerprint := ⟨Sha256.hash (r.encode Sha256.hash)⟩

/-- Two lower-case digits for each byte. -/
def hex (f : Fingerprint) : String :=
  String.ofList (f.bytes.flatMap (fun b =>
    [Json.hexDigit (b.toNat / 16), Json.hexDigit (b.toNat % 16)]))

private def compareBytes : List UInt8 → List UInt8 → Ordering
  | [], [] => .eq
  | [], _ :: _ => .lt
  | _ :: _, [] => .gt
  | a :: as, b :: bs => (compare a b).then (compareBytes as bs)

/-- Fingerprints are ordered byte by byte. -/
instance : Ord Fingerprint := ⟨fun f g => compareBytes f.bytes g.bytes⟩

end Fingerprint

end PegGrammar
