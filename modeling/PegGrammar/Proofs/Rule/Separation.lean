import Mathlib
import PegGrammar.Rule.Fingerprint

/-!
# Fingerprints separate rules

What is digested for a rule can be read back: a letter tells the kind of a node, and a length tells
where a text ends or how many parts follow. Only the values of maps cannot be read back, because just
their digests are there. So two rules that share a fingerprint are told apart by a collision of the
digest, and the bytes that collide are those of the two rules or of two values of maps in them.
-/

namespace PegGrammar.Rule

/-! ### Lengths and texts -/

@[simp]
theorem length_lengthBytes (n : Nat) : (lengthBytes n).length = 8 := rfl

theorem lengthBytes_inj {m n : Nat} (hm : m < 2 ^ 64) (hn : n < 2 ^ 64)
    (h : lengthBytes m = lengthBytes n) : m = n := by
  have hbyte : ∀ shift ∈ [0, 8, 16, 24, 32, 40, 48, 56],
      m / 2 ^ shift % 256 = n / 2 ^ shift % 256 := by
    intro shift hshift
    have := congrArg UInt8.toNat (List.map_inj_left.1 h shift hshift)
    simpa [Nat.toUInt8, Nat.shiftRight_eq_div_pow] using this
  simp at hbyte
  omega

private theorem toList_loop_eq (bytes : ByteArray) (i : Nat) (taken : List UInt8) :
    ByteArray.toList.loop bytes i taken = taken.reverse ++ bytes.data.toList.drop i := by
  fun_induction ByteArray.toList.loop bytes i taken with
  | case1 i taken hlt ih =>
    have hi : i < bytes.data.toList.length := hlt
    have hget : bytes.get! i = bytes.data.toList[i] := getElem!_pos bytes.data i hlt
    rw [ih, List.drop_eq_getElem_cons hi, hget]
    simp
  | case2 i taken hge =>
    have hlength : bytes.data.toList.length ≤ i := Nat.le_of_not_lt hge
    rw [List.drop_eq_nil_of_le hlength, List.append_nil]

theorem byteArray_toList (bytes : ByteArray) : bytes.toList = bytes.data.toList := by
  rw [ByteArray.toList, toList_loop_eq]
  simp

theorem textBytes_append_inj {s t : String} (hs : s.utf8ByteSize < 2 ^ 64)
    (ht : t.utf8ByteSize < 2 ^ 64) {x y : List UInt8} (h : textBytes s ++ x = textBytes t ++ y) :
    s = t ∧ x = y := by
  simp only [textBytes, List.append_assoc, byteArray_toList] at h
  obtain ⟨hlength, h⟩ := List.append_inj h (by simp)
  obtain ⟨hbytes, hrest⟩ := List.append_inj h (lengthBytes_inj hs ht hlength)
  exact ⟨String.toByteArray_inj.1 (ByteArray.ext (Array.toList_inj.1 hbytes)), hrest⟩

/-! ### Reading an encoding back -/

/-- All texts, keys, lists and maps of a rule have a length that eight bytes can tell. -/
inductive Sized : Rule → Prop
  | text {s : String} : s.utf8ByteSize < 2 ^ 64 → Sized (.text s)
  | list {items : List Rule} : items.length < 2 ^ 64 → (∀ item ∈ items, Sized item) →
      Sized (.list items)
  | map {entries : List (String × Rule)} : entries.length < 2 ^ 64 →
      (∀ entry ∈ entries, entry.1.utf8ByteSize < 2 ^ 64) → (∀ entry ∈ entries, Sized entry.2) →
      Sized (.map entries)

/-- What an encoding tells of a rule: all but the values of maps, of which it tells the digests. -/
inductive Skeleton where
  | text (s : String)
  | list (items : List Skeleton)
  | map (entries : List (String × List UInt8))

section

variable (digest : List UInt8 → List UInt8)

mutual

def skeleton : Rule → Skeleton
  | .text s => .text s
  | .list items => .list (skeletonOfItems items)
  | .map entries => .map (skeletonOfEntries entries)

def skeletonOfItems : List Rule → List Skeleton
  | [] => []
  | item :: items => item.skeleton :: skeletonOfItems items

def skeletonOfEntries : List (String × Rule) → List (String × List UInt8)
  | [] => []
  | (key, value) :: entries => (key, digest (value.encode digest)) :: skeletonOfEntries entries

end

end

def FixedWidth (digest : List UInt8 → List UInt8) : Prop :=
  ∀ x y, (digest x).length = (digest y).length

section

variable {digest : List UInt8 → List UInt8}

private theorem encodeEntries_append_inj (hwidth : FixedWidth digest) {x y : List UInt8} :
    ∀ {as bs : List (String × Rule)}, as.length = bs.length →
      (∀ entry ∈ as, entry.1.utf8ByteSize < 2 ^ 64) →
      (∀ entry ∈ bs, entry.1.utf8ByteSize < 2 ^ 64) →
      encodeEntries digest as ++ x = encodeEntries digest bs ++ y →
      skeletonOfEntries digest as = skeletonOfEntries digest bs ∧ x = y
  | [], [], _, _, _, h => ⟨rfl, h⟩
  | (key, value) :: as, (key', value') :: bs, hlength, has, hbs, h => by
    obtain ⟨hkey, ha⟩ := List.forall_mem_cons.1 has
    obtain ⟨hkey', hb⟩ := List.forall_mem_cons.1 hbs
    simp only [encodeEntries, List.append_assoc] at h
    obtain ⟨rfl, hvalues⟩ := textBytes_append_inj hkey hkey' h
    obtain ⟨hdigest, hmore⟩ := List.append_inj hvalues (hwidth _ _)
    obtain ⟨hentries, hrest⟩ := encodeEntries_append_inj hwidth (Nat.succ.inj hlength) ha hb hmore
    exact ⟨by rw [skeletonOfEntries, skeletonOfEntries, hdigest, hentries], hrest⟩

mutual

/-- A rule is told by its encoding up to the values of maps, and what follows it too. -/
theorem encode_append_inj (hwidth : FixedWidth digest) :
    ∀ {a b : Rule}, a.Sized → b.Sized → ∀ {x y : List UInt8},
      a.encode digest ++ x = b.encode digest ++ y →
      a.skeleton digest = b.skeleton digest ∧ x = y
  | .text s, .text t, .text hs, .text ht, x, y, h => by
    obtain ⟨rfl, hrest⟩ := textBytes_append_inj hs ht (List.cons.inj h).2
    exact ⟨rfl, hrest⟩
  | .list as, .list bs, .list ha has, .list hb hbs, x, y, h => by
    have hbytes : lengthBytes as.length ++ (encodeItems digest as ++ x)
        = lengthBytes bs.length ++ (encodeItems digest bs ++ y) := by simpa [encode] using h
    obtain ⟨hlength, hmore⟩ := List.append_inj hbytes (by simp)
    obtain ⟨hitems, hrest⟩ :=
      encodeItems_append_inj hwidth (lengthBytes_inj ha hb hlength) has hbs hmore
    exact ⟨by rw [skeleton, skeleton, hitems], hrest⟩
  | .map as, .map bs, .map ha hkeys _, .map hb hkeys' _, x, y, h => by
    have hbytes : lengthBytes as.length ++ (encodeEntries digest as ++ x)
        = lengthBytes bs.length ++ (encodeEntries digest bs ++ y) := by simpa [encode] using h
    obtain ⟨hlength, hmore⟩ := List.append_inj hbytes (by simp)
    obtain ⟨hentries, hrest⟩ :=
      encodeEntries_append_inj hwidth (lengthBytes_inj ha hb hlength) hkeys hkeys' hmore
    exact ⟨by rw [skeleton, skeleton, hentries], hrest⟩
  -- nodes of two kinds start with two letters
  | .text _, .list _, _, _, _, _, h | .text _, .map _, _, _, _, _, h
  | .list _, .text _, _, _, _, _, h | .list _, .map _, _, _, _, _, h
  | .map _, .text _, _, _, _, _, h | .map _, .list _, _, _, _, _, h =>
    absurd (List.cons.inj h).1 (by decide)

theorem encodeItems_append_inj (hwidth : FixedWidth digest) :
    ∀ {as bs : List Rule}, as.length = bs.length →
      (∀ item ∈ as, item.Sized) → (∀ item ∈ bs, item.Sized) → ∀ {x y : List UInt8},
      encodeItems digest as ++ x = encodeItems digest bs ++ y →
      skeletonOfItems digest as = skeletonOfItems digest bs ∧ x = y
  | [], [], _, _, _, _, _, h => ⟨rfl, h⟩
  | a :: as, b :: bs, hlength, has, hbs, x, y, h => by
    obtain ⟨ha, has⟩ := List.forall_mem_cons.1 has
    obtain ⟨hb, hbs⟩ := List.forall_mem_cons.1 hbs
    simp only [encodeItems, List.append_assoc] at h
    obtain ⟨hitem, h⟩ := encode_append_inj hwidth ha hb h
    obtain ⟨hitems, hrest⟩ := encodeItems_append_inj hwidth (Nat.succ.inj hlength) has hbs h
    exact ⟨by rw [skeletonOfItems, skeletonOfItems, hitem, hitems], hrest⟩

end

theorem skeleton_eq_of_encode_eq (hwidth : FixedWidth digest) {a b : Rule} (ha : a.Sized)
    (hb : b.Sized) (h : a.encode digest = b.encode digest) :
    a.skeleton digest = b.skeleton digest :=
  (encode_append_inj hwidth ha hb (congrArg (· ++ []) h)).1

/-! ### Collisions -/

/-- The second rule is the value of a map somewhere in the first. -/
inductive HasValue : Rule → Rule → Prop
  | item {items : List Rule} {item value : Rule} :
      item ∈ items → HasValue item value → HasValue (.list items) value
  | entry {entries : List (String × Rule)} {key : String} {value : Rule} :
      (key, value) ∈ entries → HasValue (.map entries) value
  | inside {entries : List (String × Rule)} {key : String} {inner value : Rule} :
      (key, inner) ∈ entries → HasValue inner value → HasValue (.map entries) value

theorem HasValue.list_cons {item v : Rule} {items : List Rule} (h : (Rule.list items).HasValue v) :
    (Rule.list (item :: items)).HasValue v := by
  cases h with
  | item hmem h => exact .item (List.mem_cons_of_mem _ hmem) h

theorem HasValue.map_cons {entry : String × Rule} {v : Rule} {entries : List (String × Rule)}
    (h : (Rule.map entries).HasValue v) : (Rule.map (entry :: entries)).HasValue v := by
  cases h with
  | entry hmem => exact .entry (List.mem_cons_of_mem _ hmem)
  | inside hmem h => exact .inside (List.mem_cons_of_mem _ hmem) h

/-- The encodings of two rules are a collision of the digest. -/
def Collide (digest : List UInt8 → List UInt8) (v w : Rule) : Prop :=
  v.encode digest ≠ w.encode digest ∧ digest (v.encode digest) = digest (w.encode digest)

def ValuesCollide (digest : List UInt8 → List UInt8) (a b : Rule) : Prop :=
  ∃ v w, a.HasValue v ∧ b.HasValue w ∧ Collide digest v w

mutual

/-- Rules of one skeleton differ in the values of maps only, and those have the same digests. -/
theorem eq_or_valuesCollide (hwidth : FixedWidth digest) : ∀ {a b : Rule}, a.Sized → b.Sized →
    a.skeleton digest = b.skeleton digest → a = b ∨ ValuesCollide digest a b
  | .text s, .text t, _, _, h => .inl (by rw [skeleton, skeleton] at h; cases h; rfl)
  | .list as, .list bs, .list _ has, .list _ hbs, h =>
    (eq_or_valuesCollide_list hwidth has hbs (Skeleton.list.inj h)).imp_left (congrArg Rule.list)
  | .map as, .map bs, .map _ _ has, .map _ _ hbs, h =>
    (eq_or_valuesCollide_map hwidth has hbs (Skeleton.map.inj h)).imp_left (congrArg Rule.map)

theorem eq_or_valuesCollide_list (hwidth : FixedWidth digest) : ∀ {as bs : List Rule},
    (∀ item ∈ as, item.Sized) → (∀ item ∈ bs, item.Sized) →
    skeletonOfItems digest as = skeletonOfItems digest bs →
    as = bs ∨ ValuesCollide digest (.list as) (.list bs)
  | [], [], _, _, _ => .inl rfl
  | a :: as, b :: bs, has, hbs, h => by
    obtain ⟨ha, has'⟩ := List.forall_mem_cons.1 has
    obtain ⟨hb, hbs'⟩ := List.forall_mem_cons.1 hbs
    obtain ⟨hitem, hitems⟩ := List.cons.inj h
    obtain rfl | ⟨v, w, hv, hw, hcollide⟩ := eq_or_valuesCollide hwidth ha hb hitem
    · obtain rfl | ⟨v, w, hv, hw, hcollide⟩ := eq_or_valuesCollide_list hwidth has' hbs' hitems
      · exact .inl rfl
      · exact .inr ⟨v, w, hv.list_cons, hw.list_cons, hcollide⟩
    · exact .inr ⟨v, w, .item List.mem_cons_self hv, .item List.mem_cons_self hw, hcollide⟩

theorem eq_or_valuesCollide_map (hwidth : FixedWidth digest) : ∀ {as bs : List (String × Rule)},
    (∀ entry ∈ as, entry.2.Sized) → (∀ entry ∈ bs, entry.2.Sized) →
    skeletonOfEntries digest as = skeletonOfEntries digest bs →
    as = bs ∨ ValuesCollide digest (.map as) (.map bs)
  | [], [], _, _, _ => .inl rfl
  | (key, a) :: as, (key', b) :: bs, has, hbs, h => by
    obtain ⟨ha, has'⟩ := List.forall_mem_cons.1 has
    obtain ⟨hb, hbs'⟩ := List.forall_mem_cons.1 hbs
    obtain ⟨hentry, hentries⟩ := List.cons.inj h
    obtain ⟨rfl, hdigest⟩ := Prod.mk.inj hentry
    by_cases hbytes : a.encode digest = b.encode digest
    · have hskeleton := skeleton_eq_of_encode_eq hwidth ha hb hbytes
      obtain rfl | ⟨v, w, hv, hw, hcollide⟩ := eq_or_valuesCollide hwidth ha hb hskeleton
      · obtain rfl | ⟨v, w, hv, hw, hcollide⟩ := eq_or_valuesCollide_map hwidth has' hbs' hentries
        · exact .inl rfl
        · exact .inr ⟨v, w, hv.map_cons, hw.map_cons, hcollide⟩
      · exact .inr ⟨v, w, .inside List.mem_cons_self hv, .inside List.mem_cons_self hw, hcollide⟩
    · exact .inr ⟨a, b, .entry List.mem_cons_self, .entry List.mem_cons_self, hbytes, hdigest⟩

end

end

/-- The bytes are digested on the way to the fingerprint of a rule: they encode the rule or the
value of a map in it. -/
def Digested (digest : List UInt8 → List UInt8) (r : Rule) (bytes : List UInt8) : Prop :=
  ∃ v, (v = r ∨ r.HasValue v) ∧ bytes = v.encode digest

theorem eq_or_collision {digest : List UInt8 → List UInt8} (hwidth : FixedWidth digest) {a b : Rule}
    (ha : a.Sized) (hb : b.Sized) (h : digest (a.encode digest) = digest (b.encode digest)) :
    a = b ∨ ∃ x y, a.Digested digest x ∧ b.Digested digest y ∧ x ≠ y ∧ digest x = digest y := by
  by_cases hbytes : a.encode digest = b.encode digest
  · have hskeleton := skeleton_eq_of_encode_eq hwidth ha hb hbytes
    refine (eq_or_valuesCollide hwidth ha hb hskeleton).imp_right ?_
    rintro ⟨v, w, hv, hw, hne, heq⟩
    exact ⟨_, _, ⟨v, .inr hv, rfl⟩, ⟨w, .inr hw, rfl⟩, hne, heq⟩
  · exact .inr ⟨_, _, ⟨a, .inl rfl, rfl⟩, ⟨b, .inl rfl, rfl⟩, hbytes, h⟩

end PegGrammar.Rule

namespace PegGrammar.Fingerprint

open Rule (FixedWidth Sized)

theorem fixedWidth_hash : FixedWidth Sha256.hash := fun x y => by simp

/-- Two different rules of one fingerprint show two different byte strings of one digest, the one
digested for the first rule and the other for the second. For the encoding is uniquely decodable: it
tells the rule up to the values of maps, whatever follows it. -/
theorem separates {a b : Rule} (ha : a.Sized) (hb : b.Sized) :
    (ofRule a = ofRule b → a ≠ b → ∃ x y, a.Digested Sha256.hash x ∧ b.Digested Sha256.hash y ∧
      x ≠ y ∧ Sha256.hash x = Sha256.hash y) ∧
    ∀ x y, a.encode Sha256.hash ++ x = b.encode Sha256.hash ++ y →
      a.skeleton Sha256.hash = b.skeleton Sha256.hash ∧ x = y := by
  refine ⟨fun heq hne => ?_, fun x y => Rule.encode_append_inj fixedWidth_hash ha hb⟩
  exact (Rule.eq_or_collision fixedWidth_hash ha hb (Fingerprint.mk.inj heq)).resolve_left hne

/-- Where a list ends is told, so lists of the same texts that are nested in other ways have
encodings neither of which continues the other. -/
theorem separates_nested_lists :
    let a : Rule := .list [.text "a", .list [.text "b"]]
    let b : Rule := .list [.list [.text "a"], .text "b"]
    a.Sized ∧ b.Sized ∧
      ∀ x y, a.encode Sha256.hash ++ x ≠ b.encode Sha256.hash ++ y := by
  intro a b
  have htext : (Rule.text "a").Sized ∧ (Rule.text "b").Sized :=
    ⟨.text (by decide), .text (by decide)⟩
  have hlist : ∀ r : Rule, r.Sized → (Rule.list [r]).Sized := fun r hr =>
    .list (by simp) (by simpa using hr)
  have ha : a.Sized := .list (by decide) (by simp [htext, hlist])
  have hb : b.Sized := .list (by decide) (by simp [htext, hlist])
  refine ⟨ha, hb, fun x y h => ?_⟩
  have := ((separates ha hb).2 x y h).1
  simp [a, b, Rule.skeleton, Rule.skeletonOfItems] at this

end PegGrammar.Fingerprint
