import PegGrammar.Finite.Registry

/-!
# Sets as bits

A set of the numbers of one registry, kept in words of 64 bits: the number `64 * i + j` is a member when bit `j` of
word `i` is set. Words are never given back. There are more of them when a number beyond the last one is added or a
set with more words is merged, and the last ones may have no bits, so two sets with the same members may differ in how
many words they have; where a word is missing it counts as one without bits. Zero stands for no value and is never a
member.

Sets over different registries have nothing to do with each other, so to combine them is refused.
-/

namespace PegGrammar

/-- A set of the numbers of one registry. -/
structure BitSet where
  /-- Which registry the numbers belong to. -/
  registry : Nat
  store : List UInt64

/-- What is said when sets over two registries are combined. -/
def BitSet.mismatch : String := "can't combine BitSets built over different BitGrammars"

namespace BitSet

def wordBits : Nat := 64

def empty (registry : Nat) : BitSet := ⟨registry, []⟩

/-- How many words are kept. -/
def words (s : BitSet) : Nat := s.store.length

/-- The word that has only the bit of a number. -/
def mask (id : Nat) : UInt64 := 1 <<< UInt64.ofNat (id % wordBits)

def containsId (s : BitSet) (id : Nat) : Bool :=
  (s.store[id / wordBits]?).any (fun word => word &&& mask id ≠ 0)

/-- Adds a number; whether it was no member before comes first. Zero is never added. -/
def insertId (s : BitSet) (id : Nat) : Bool × BitSet :=
  if id = 0 then (false, s)
  else
    let index := id / wordBits
    let store := s.store.rightpad (index + 1) 0
    let word := store.getD index 0
    (word &&& mask id = 0, { s with store := store.set index (word ||| mask id) })

/-- The set with a number. -/
def addId (s : BitSet) (id : Nat) : BitSet := (s.insertId id).2

/-- Removes a number; whether it was a member comes first. -/
def eraseId (s : BitSet) (id : Nat) : Bool × BitSet :=
  let index := id / wordBits
  match s.store[index]? with
  | some word =>
    if word &&& mask id ≠ 0 then (true, { s with store := s.store.set index (word &&& ~~~mask id) })
    else (false, s)
  | none => (false, s)

/-- The set without a number. -/
def removeId (s : BitSet) (id : Nat) : BitSet := (s.eraseId id).2

def clear (s : BitSet) : BitSet := { s with store := s.store.map fun _ => 0 }

/-- The places of the bits of a word, in increasing order. -/
def places (word : UInt64) : List Nat := (List.range wordBits).filter fun place => word &&& mask place ≠ 0

/-- The members in increasing order. -/
def ids (s : BitSet) : List Nat :=
  s.store.zipIdx.flatMap fun (word, index) => (places word).map (index * wordBits + ·)

def size (s : BitSet) : Nat := s.store.foldr (fun word n => word.toBitVec.cpop.toNat + n) 0

def isEmpty (s : BitSet) : Bool := s.size = 0

def overlaps (s t : BitSet) : Bool := (s.store.zip t.store).any fun (a, b) => a &&& b ≠ 0

/-- Words, each changed by the one in its place in another list. Those behind the end of the other list are left as
they are. -/
def overlay (change : UInt64 → UInt64 → UInt64) (as bs : List UInt64) : List UInt64 :=
  List.zipWith change as bs ++ as.drop bs.length

/-- The members of either of two sets over one registry. -/
def union (s t : BitSet) : BitSet :=
  { s with store := overlay (· ||| ·) (s.store.rightpad t.words 0) t.store }

/-- The members of both of two sets over one registry. -/
def inter (s t : BitSet) : BitSet :=
  { s with store := List.zipWith (· &&& ·) s.store (t.store.rightpad s.words 0) }

/-- The members of one set that are no members of another over the same registry. -/
def diff (s t : BitSet) : BitSet :=
  { s with store := overlay (fun a b => a &&& ~~~b) s.store t.store }

def combine? {β : Type} (op : BitSet → BitSet → β) (s t : BitSet) : Except String β :=
  if s.registry = t.registry then .ok (op s t) else .error mismatch

/-- Whether two sets are over one registry and have the same members. -/
def sameMembers (s t : BitSet) : Bool := s.registry = t.registry ∧ s.ids = t.ids

/-- Adds a value, which gets a number if it has none; whether it was no member before comes first. -/
def addValue {α : Type} [DecidableEq α] (s : BitSet) (r : Registry α) (value : α) :
    Bool × BitSet × Registry α :=
  let (id, r) := r.getOrAdd value
  let (fresh, s) := s.insertId id
  (fresh, s, r)

/-- Removes a value, if it has a number; whether it was a member comes first. -/
def removeValue {α : Type} [DecidableEq α] (s : BitSet) (r : Registry α) (value : α) : Bool × BitSet :=
  match r.id? value with
  | some id => s.eraseId id
  | none => (false, s)

def containsValue {α : Type} [DecidableEq α] (s : BitSet) (r : Registry α) (value : α) : Bool :=
  (r.id? value).any s.containsId

/-- The values of the members, without those members that are bound to none. -/
def values {α : Type} (s : BitSet) (r : Registry α) : List α := s.ids.filterMap r.value?

def shown {α : Type} (s : BitSet) (r : Registry α) (showValue : α → String) : String :=
  "\x7b" ++ String.intercalate ", " ((s.values r).map showValue) ++ "\x7d"

end BitSet

end PegGrammar
