import PegGrammar.Proofs.Finite.Registry

/-!
# A registry is a stable bijection

However fresh numbers and chosen ones are mixed, a registry never binds two values to one number or two numbers to
one value, and never lets go of a binding.

The care is in the fresh numbers. A binding is put in place by overwriting what either side was bound to before, so a
fresh number that was already taken would merge two values silently. It lies above every number that was ever
bound, also above those that were chosen by hand and left gaps behind them, and this is what each call has to keep.
-/

namespace PegGrammar

/-- What is asked of a registry that may change it. -/
inductive RegistryCall (α : Type) where
  /-- Numbers a value, if it has no number. -/
  | number (value : α)
  /-- Tries to bind a value to a chosen number. -/
  | bind (value : α) (id : Nat)

namespace Registry

variable {α : Type} [DecidableEq α]

/-- The registry after a call; as it was, if the call is refused. -/
def after (r : Registry α) : RegistryCall α → Registry α
  | .number value => (r.getOrAdd value).2
  | .bind value id =>
    match r.bindAs value id with
    | .ok next => next
    | .error _ => r

/-- The registry after some calls, one after the other. -/
def afterAll (r : Registry α) (calls : List (RegistryCall α)) : Registry α := calls.foldl after r

/-- Numbers and values determine each other, by whichever function they are looked up, and what is bound next cannot
break this. -/
structure Bijective (r : Registry α) : Prop where
  value_unique : ∀ id value other, (id, value) ∈ r.entries → (id, other) ∈ r.entries → value = other
  id_unique : ∀ value id other, (id, value) ∈ r.entries → (other, value) ∈ r.entries → id = other
  in_range : ∀ id value, (id, value) ∈ r.entries → id ≠ 0 ∧ id ≤ r.highWater
  /-- The two ways to look up a binding are inverse to each other. -/
  inverse : ∀ value id, r.idOf value = id ∧ id ≠ 0 ↔ r.valueOf id = .ok value
  /-- The list of entries has all bindings, and no others. -/
  listed : ∀ id value, (id, value) ∈ r.entries ↔ r.valueOf id = .ok value
  ordered : r.entries.Pairwise fun a b => a.1 < b.1
  numbered : ∀ value, (r.getOrAdd value).2.idOf value = (r.getOrAdd value).1
  /-- A new value gets a number above all that are bound. -/
  fresh : ∀ value, r.idOf value = 0 → ∀ entry ∈ r.entries, entry.1 < (r.getOrAdd value).1
  /-- A chosen number is bound to a value if it is already, or if neither is bound to anything. -/
  binds : ∀ value id, (∃ next, r.bindAs value id = .ok next) ↔
    id ≠ 0 ∧ (r.valueOf id = .ok value ∨ ∀ entry ∈ r.entries, entry.1 ≠ id ∧ entry.2 ≠ value)
  /-- What is bound then is this pair, and everything else is as it was. -/
  bound : ∀ value id next, r.bindAs value id = .ok next →
    next.identity = r.identity ∧ ∀ entry, entry ∈ next.entries ↔ entry = (id, value) ∨ entry ∈ r.entries
  /-- A call that is refused changes nothing. -/
  refused : ∀ value id error, r.bindAs value id = .error error → r.after (.bind value id) = r

/-! ### Calls -/

variable {r : Registry α}

/-- A call keeps a registry sound, and keeps all its bindings. -/
theorem Sound.after (h : r.Sound) (call : RegistryCall α) :
    (r.after call).Sound ∧ r.entries ⊆ (r.after call).entries := by
  cases call with
  | number value => exact ⟨h.getOrAdd value, h.entries_subset_getOrAdd value⟩
  | bind value id =>
    rw [Registry.after]
    split
    · rename_i hbind
      exact ⟨h.bindAs hbind, entries_subset_bindAs hbind⟩
    · exact ⟨h, List.Subset.refl _⟩

theorem Sound.afterAll (h : r.Sound) (calls : List (RegistryCall α)) :
    (r.afterAll calls).Sound ∧ r.entries ⊆ (r.afterAll calls).entries := by
  induction calls generalizing r with
  | nil => exact ⟨h, List.Subset.refl _⟩
  | cons call calls ih =>
    obtain ⟨hnext, hkept⟩ := h.after call
    obtain ⟨hlast, hlater⟩ := ih hnext
    exact ⟨hlast, List.Subset.trans hkept hlater⟩

/-! ### Lookups -/

omit [DecidableEq α] in
theorem Sound.valueOf_eq_ok_iff (h : r.Sound) {id : Nat} {value : α} :
    r.valueOf id = .ok value ↔ (id, value) ∈ r.entries := by
  rw [← value?_eq_some_iff h, valueOf]
  cases r.value? id <;> simp

theorem idOf_eq_zero_iff_of_positive (h : ∀ entry ∈ r.entries, 0 < entry.1) {value : α} :
    r.idOf value = 0 ↔ r.id? value = none := by
  rw [idOf]
  cases hid : r.id? value with
  | none => simp
  | some id =>
    have hpos : 0 < id := h _ (mem_of_id? hid)
    simp [Nat.pos_iff_ne_zero.1 hpos]

theorem Sound.idOf_eq_iff (h : r.Sound) {value : α} {id : Nat} :
    r.idOf value = id ∧ id ≠ 0 ↔ (id, value) ∈ r.entries := by
  rw [← id?_eq_some_iff h]
  constructor
  · rintro ⟨rfl, hne⟩
    cases hid : r.id? value with
    | some id => simp [idOf, hid]
    | none => exact absurd ((idOf_eq_zero_iff_of_positive h.positive).2 hid) hne
  · intro hid
    have hpos : 0 < id := h.positive _ (mem_of_id? hid)
    constructor
    · simp [idOf, hid]
    · omega

theorem Sound.idOf_getOrAdd (h : r.Sound) (value : α) :
    (r.getOrAdd value).2.idOf value = (r.getOrAdd value).1 :=
  ((h.getOrAdd value).idOf_eq_iff.2 (mem_getOrAdd r value)).1

theorem Sound.lt_getOrAdd (h : r.Sound) {value : α} (hnew : r.idOf value = 0) :
    ∀ entry ∈ r.entries, entry.1 < (r.getOrAdd value).1 := by
  intro entry hentry
  have hnone := (idOf_eq_zero_iff_of_positive h.positive).1 hnew
  have hle := h.bounded entry hentry
  rw [h.getOrAdd_of_new hnone]
  show entry.1 < r.highWater + 1
  omega

theorem Sound.exists_bindAs_iff (h : r.Sound) {value : α} {id : Nat} :
    (∃ next, r.bindAs value id = .ok next) ↔
      id ≠ 0 ∧ ((id, value) ∈ r.entries ∨ ∀ entry ∈ r.entries, entry.1 ≠ id ∧ entry.2 ≠ value) := by
  simp only [bindAs_eq_ok_iff, exists_and_left, exists_or, exists_eq, and_true, id?_eq_some_iff h,
    id?_eq_none_iff, value?_eq_none_iff]
  refine and_congr_right fun _ => or_congr_right ⟨?_, ?_⟩
  · rintro ⟨hvalue, hid⟩ entry hentry
    exact ⟨hid entry hentry, hvalue entry hentry⟩
  · intro hfree
    exact ⟨fun entry hentry => (hfree entry hentry).2, fun entry hentry => (hfree entry hentry).1⟩

theorem mem_bindAs_iff {next : Registry α} {value : α} {id : Nat} (h : r.bindAs value id = .ok next)
    {entry : Nat × α} : entry ∈ next.entries ↔ entry = (id, value) ∨ entry ∈ r.entries := by
  obtain ⟨-, ⟨hid, rfl⟩ | ⟨-, -, rfl⟩⟩ := bindAs_eq_ok_iff.1 h
  · exact (or_iff_right_of_imp fun heq => heq ▸ mem_of_id? hid).symm
  · exact mem_insertById

theorem after_bind_of_error {value : α} {id : Nat} {error : RegistryError}
    (hbind : r.bindAs value id = .error error) : r.after (.bind value id) = r := by
  simp [after, hbind]

theorem Sound.bijective (h : r.Sound) : r.Bijective where
  value_unique _ _ _ := h.value_eq
  id_unique _ _ _ := h.id_eq
  in_range _ _ hentry := ⟨Nat.pos_iff_ne_zero.1 (h.positive _ hentry), h.bounded _ hentry⟩
  inverse _ _ := h.idOf_eq_iff.trans h.valueOf_eq_ok_iff.symm
  listed _ _ := h.valueOf_eq_ok_iff.symm
  ordered := h.ordered
  numbered := h.idOf_getOrAdd
  fresh _ := h.lt_getOrAdd
  binds _ _ := by rw [h.valueOf_eq_ok_iff, h.exists_bindAs_iff]
  bound _ _ _ hnext := ⟨identity_bindAs hnext, fun _ => mem_bindAs_iff hnext⟩
  refused _ _ _ := after_bind_of_error

/-- After any calls a registry is a bijection, and whatever is called then, no binding of it is changed or lost. -/
theorem stays_bijective (identity : Nat) (calls later : List (RegistryCall α)) :
    ((empty identity : Registry α).afterAll calls).Bijective ∧
      ((empty identity : Registry α).afterAll calls).entries ⊆
        ((empty identity : Registry α).afterAll (calls ++ later)).entries := by
  obtain ⟨hsound, -⟩ := (sound_empty identity : (empty identity : Registry α).Sound).afterAll calls
  obtain ⟨-, hkept⟩ := hsound.afterAll later
  refine ⟨hsound.bijective, ?_⟩
  rwa [afterAll, afterAll, ← List.foldl_append] at hkept

/-- A number that is chosen far ahead: the next fresh one lies behind it, not in the gap. -/
example : ((empty 0 : Registry String).afterAll [.number "if", .bind "else" 130, .bind "if" 7, .number "do",
    .bind "while" 1]).entries = [(1, "if"), (130, "else"), (131, "do")] := by decide

end Registry

end PegGrammar
