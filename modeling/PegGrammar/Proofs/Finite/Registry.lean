import PegGrammar.Proofs.Finite.BitSet

/-!
# Numbers that stay

A registry never changes or drops a binding, so a set of numbers keeps its meaning as the registry grows. Numbers
and values determine each other: only a new value is bound, and only to a new number.
-/

namespace PegGrammar

namespace Registry

variable {α : Type}

theorem mem_insertById {id : Nat} {value : α} {entries : List (Nat × α)} {entry : Nat × α} :
    entry ∈ insertById id value entries ↔ entry = (id, value) ∨ entry ∈ entries := by
  induction entries with
  | nil => simp [insertById]
  | cons head entries ih =>
    obtain ⟨i, v⟩ := head
    rw [insertById]
    split
    · exact List.mem_cons
    · rw [List.mem_cons, ih, List.mem_cons]
      exact or_left_comm

/-- The bindings of a registry are in order, of different values, under numbers from one up to the largest
that was ever bound. -/
structure Sound (r : Registry α) : Prop where
  ordered : r.entries.Pairwise (fun a b => a.1 < b.1)
  distinct : r.entries.Pairwise (fun a b => a.2 ≠ b.2)
  positive : ∀ entry ∈ r.entries, 0 < entry.1
  bounded : ∀ entry ∈ r.entries, entry.1 ≤ r.highWater

theorem sound_empty (identity : Nat) : (empty identity : Registry α).Sound := by
  constructor <;> simp [empty]

theorem value?_eq_some_iff {r : Registry α} (h : r.Sound) {id : Nat} {value : α} :
    r.value? id = some value ↔ (id, value) ∈ r.entries := by
  obtain ⟨hordered, -, -, -⟩ := h
  rw [value?]
  generalize r.entries = entries at hordered ⊢
  induction entries with
  | nil => simp
  | cons head entries ih =>
    obtain ⟨i, v⟩ := head
    obtain ⟨hhead, hordered⟩ := List.pairwise_cons.1 hordered
    rw [List.lookup_cons, List.mem_cons]
    by_cases heq : id = i
    · subst heq
      have hnot : (id, value) ∉ entries := fun hmem => Nat.lt_irrefl id (hhead _ hmem)
      simp [hnot, eq_comm]
    · have hne : (id == i) = false := beq_eq_false_iff_ne.2 heq
      simp [hne, heq, ih hordered]

theorem Sound.value_eq {r : Registry α} (h : r.Sound) {id : Nat} {value other : α}
    (hvalue : (id, value) ∈ r.entries) (hother : (id, other) ∈ r.entries) : value = other := by
  have hsome := (value?_eq_some_iff h).2 hvalue
  exact Option.some.inj (hsome.symm.trans ((value?_eq_some_iff h).2 hother))

theorem pairwise_insertById {id : Nat} {value : α} {entries : List (Nat × α)}
    (h : entries.Pairwise (fun a b => a.1 < b.1)) (hnew : ∀ entry ∈ entries, entry.1 ≠ id) :
    (insertById id value entries).Pairwise (fun a b => a.1 < b.1) := by
  induction entries with
  | nil => simp [insertById]
  | cons head entries ih =>
    obtain ⟨i, v⟩ := head
    obtain ⟨hhead, hrest⟩ := List.pairwise_cons.1 h
    have hi : i ≠ id := hnew _ List.mem_cons_self
    rw [insertById]
    split
    · rename_i hlt
      refine List.pairwise_cons.2 ⟨fun entry hentry => ?_, h⟩
      rcases List.mem_cons.1 hentry with rfl | hentry
      · exact hlt
      · exact Nat.lt_trans hlt (hhead entry hentry)
    · refine List.pairwise_cons.2 ⟨fun entry hentry => ?_, ih hrest fun entry hentry =>
        hnew entry (List.mem_cons_of_mem _ hentry)⟩
      rcases mem_insertById.1 hentry with rfl | hentry
      · omega
      · exact hhead entry hentry

theorem perm_insertById (id : Nat) (value : α) (entries : List (Nat × α)) :
    (insertById id value entries).Perm ((id, value) :: entries) := by
  induction entries with
  | nil => exact .refl _
  | cons head entries ih =>
    obtain ⟨i, v⟩ := head
    rw [insertById]
    split
    · exact .refl _
    · exact (ih.cons _).trans (.swap _ _ _)

/-- A value and a number that are both new can be bound to each other. -/
theorem Sound.insertById {r : Registry α} (h : r.Sound) {id : Nat} {value : α} (hpos : 0 < id)
    (hid : ∀ entry ∈ r.entries, entry.1 ≠ id) (hvalue : ∀ entry ∈ r.entries, entry.2 ≠ value) :
    Sound { r with entries := Registry.insertById id value r.entries, highWater := max r.highWater id } := by
  have hdistinct : ((id, value) :: r.entries).Pairwise (fun a b => a.2 ≠ b.2) :=
    List.pairwise_cons.2 ⟨fun entry hentry => (hvalue entry hentry).symm, h.distinct⟩
  refine ⟨pairwise_insertById h.ordered hid,
    ((perm_insertById id value _).pairwise_iff Ne.symm).2 hdistinct, ?_, ?_⟩
  · intro entry hentry
    rcases mem_insertById.1 hentry with rfl | hentry
    · exact hpos
    · exact h.positive entry hentry
  · intro entry hentry
    rcases mem_insertById.1 hentry with rfl | hentry
    · exact Nat.le_max_right _ _
    · exact Nat.le_trans (h.bounded entry hentry) (Nat.le_max_left _ _)

theorem Sound.fresh {r : Registry α} (h : r.Sound) : ∀ entry ∈ r.entries, entry.1 ≠ r.highWater + 1 :=
  fun entry hentry => Nat.ne_of_lt (Nat.lt_succ_of_le (h.bounded entry hentry))

theorem value?_eq_none_iff {r : Registry α} {id : Nat} :
    r.value? id = none ↔ ∀ entry ∈ r.entries, entry.1 ≠ id := by
  rw [value?, List.lookup_eq_none_iff]
  refine forall₂_congr fun entry _ => ?_
  rw [bne_iff_ne, ne_comm]

variable [DecidableEq α]

theorem mem_of_id? {r : Registry α} {value : α} {id : Nat} (h : r.id? value = some id) :
    (id, value) ∈ r.entries := by
  obtain ⟨⟨i, v⟩, hfind, rfl⟩ := Option.map_eq_some_iff.1 h
  have hvalue : v = value := by simpa using List.find?_some hfind
  exact hvalue ▸ List.mem_of_find?_eq_some hfind

theorem mem_getOrAdd (r : Registry α) (value : α) :
    ((r.getOrAdd value).1, value) ∈ (r.getOrAdd value).2.entries := by
  rw [getOrAdd]
  split
  · rename_i id hid
    exact mem_of_id? hid
  · exact mem_insertById.2 (.inl rfl)

theorem id?_eq_none_iff {r : Registry α} {value : α} :
    r.id? value = none ↔ ∀ entry ∈ r.entries, entry.2 ≠ value := by
  simp [id?]

theorem id?_eq_some_iff {r : Registry α} (h : r.Sound) {value : α} {id : Nat} :
    r.id? value = some id ↔ (id, value) ∈ r.entries := by
  obtain ⟨-, hdistinct, -, -⟩ := h
  rw [id?]
  generalize r.entries = entries at hdistinct ⊢
  induction entries with
  | nil => simp
  | cons head entries ih =>
    obtain ⟨i, v⟩ := head
    obtain ⟨hhead, hdistinct⟩ := List.pairwise_cons.1 hdistinct
    rw [List.find?_cons, List.mem_cons]
    by_cases heq : v = value
    · subst heq
      have hnot : (id, v) ∉ entries := fun hmem => hhead _ hmem rfl
      simp [hnot, eq_comm]
    · simp [heq, Ne.symm heq, ih hdistinct]

theorem Sound.id_eq {r : Registry α} (h : r.Sound) {value : α} {id other : Nat}
    (hid : (id, value) ∈ r.entries) (hother : (other, value) ∈ r.entries) : id = other := by
  have hsome := (id?_eq_some_iff h).2 hid
  exact Option.some.inj (hsome.symm.trans ((id?_eq_some_iff h).2 hother))

/-! ### New bindings -/

/-- Where both a number and a value are new, nothing is lost by binding them to each other. -/
theorem rebind_eq_insertById {id : Nat} {value : α} {entries : List (Nat × α)}
    (hid : ∀ entry ∈ entries, entry.1 ≠ id) (hvalue : ∀ entry ∈ entries, entry.2 ≠ value) :
    rebind id value entries = Registry.insertById id value entries := by
  rw [rebind, List.filter_eq_self.2]
  intro entry hentry
  exact decide_eq_true ⟨hid entry hentry, hvalue entry hentry⟩

theorem getOrAdd_of_id? {r : Registry α} {value : α} {id : Nat} (h : r.id? value = some id) :
    r.getOrAdd value = (id, r) := by
  rw [Registry.getOrAdd, h]

theorem Sound.getOrAdd_of_new {r : Registry α} (h : r.Sound) {value : α} (hnone : r.id? value = none) :
    r.getOrAdd value = (r.highWater + 1,
      { r with entries := Registry.insertById (r.highWater + 1) value r.entries, highWater := r.highWater + 1 }) := by
  rw [Registry.getOrAdd, hnone]
  dsimp only
  rw [rebind_eq_insertById h.fresh (id?_eq_none_iff.1 hnone)]

@[simp] theorem identity_getOrAdd (r : Registry α) (value : α) : (r.getOrAdd value).2.identity = r.identity := by
  rw [getOrAdd]
  split <;> rfl

theorem identity_bindAs {r next : Registry α} {value : α} {id : Nat} (h : r.bindAs value id = .ok next) :
    next.identity = r.identity := by
  rw [bindAs] at h
  split at h
  · cases h
  split at h
  · split at h <;> cases h
    rfl
  · split at h <;> cases h
    rfl

theorem Sound.entries_subset_getOrAdd {r : Registry α} (h : r.Sound) (value : α) :
    r.entries ⊆ (r.getOrAdd value).2.entries := by
  cases hid : r.id? value with
  | some id =>
    rw [getOrAdd_of_id? hid]
    exact List.Subset.refl _
  | none =>
    rw [h.getOrAdd_of_new hid]
    exact fun entry hentry => mem_insertById.2 (.inr hentry)

theorem Sound.getOrAdd {r : Registry α} (h : r.Sound) (value : α) : (r.getOrAdd value).2.Sound := by
  cases hid : r.id? value with
  | some id => rwa [getOrAdd_of_id? hid]
  | none =>
    have hinsert := h.insertById (Nat.succ_pos _) h.fresh (id?_eq_none_iff.1 hid)
    rw [Nat.max_eq_right (Nat.le_succ _)] at hinsert
    rwa [h.getOrAdd_of_new hid]

/-- When a value can be bound to a number, and what comes of it. -/
theorem bindAs_eq_ok_iff {r next : Registry α} {value : α} {id : Nat} :
    r.bindAs value id = .ok next ↔ id ≠ 0 ∧
      (r.id? value = some id ∧ next = r ∨ r.id? value = none ∧ r.value? id = none ∧
        next = { r with
          entries := Registry.insertById id value r.entries, highWater := max r.highWater id }) := by
  rw [bindAs]
  split
  · rename_i hzero
    simp [hzero]
  rename_i hid
  rw [and_iff_right hid]
  cases hvalue : r.id? value with
  | some bound =>
    by_cases hbound : bound = id
    · simp [hbound, eq_comm]
    · simp [hbound]
  | none =>
    cases htaken : r.value? id with
    | some other => simp
    | none =>
      rw [rebind_eq_insertById (value?_eq_none_iff.1 htaken) (id?_eq_none_iff.1 hvalue)]
      simp [eq_comm]

theorem Sound.bindAs {r next : Registry α} (h : r.Sound) {value : α} {id : Nat}
    (hnext : r.bindAs value id = .ok next) : next.Sound := by
  obtain ⟨hid, ⟨-, rfl⟩ | ⟨hvalue, hfree, rfl⟩⟩ := bindAs_eq_ok_iff.1 hnext
  · exact h
  · exact h.insertById (Nat.pos_of_ne_zero hid) (value?_eq_none_iff.1 hfree) (id?_eq_none_iff.1 hvalue)

theorem entries_subset_bindAs {r next : Registry α} {value : α} {id : Nat}
    (hnext : r.bindAs value id = .ok next) : r.entries ⊆ next.entries := by
  obtain ⟨-, ⟨-, rfl⟩ | ⟨-, -, rfl⟩⟩ := bindAs_eq_ok_iff.1 hnext
  · exact List.Subset.refl _
  · exact fun entry hentry => mem_insertById.2 (.inr hentry)

theorem Sound.nodup_values {r : Registry α} (h : r.Sound) (s : BitSet) : (s.values r).Nodup := by
  refine s.pairwise_ids.filterMap _ fun id other hlt value hvalue value' hvalue' heq => ?_
  subst heq
  have hid := h.id_eq ((value?_eq_some_iff h).1 hvalue) ((value?_eq_some_iff h).1 hvalue')
  omega

end Registry

end PegGrammar
