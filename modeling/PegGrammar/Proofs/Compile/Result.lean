import PegGrammar.Proofs.Compile.Layer

/-!
# What a step of a session gives

A step gives a value or an error, and the session after it in either case. The result of a step is
computed here from those of its parts, so that nothing else has to look into how steps are put together.
Most steps are passive: all they do is fail or make notes, and what they say depends on the names that are
being compiled only. The table of rules, the first sets and the literals are the same after them.
-/

namespace PegGrammar

namespace Session

/-- The session inside of a rule that is met for the first time. -/
def entering (s : Session) (name : String) : Session :=
  { s with table := ⟨s.table.rules ++ [(name, none)]⟩, context := name :: s.context }

/-- The session behind a rule. -/
def leaving (s : Session) : Session := { s with context := s.context.tail }

/-- The session that keeps the body of a rule. -/
def keeping (s : Session) (id : Nat) (name : String) (body : Parser) : Session :=
  { s with table := s.table.define id body }.record .debug ("compiled rule `" ++ name ++ "`")

end Session

/-- What the analysis of first sets knows of a compiler. -/
def Compiler.leadContext (c : Compiler) : LeadContext :=
  ⟨c.grammar, c.overrides.map Prod.fst, c.config.bareLiterals⟩

/-- What a name stands for that is neither replaced nor defined. -/
def Compiler.undefined? (c : Compiler) (name : String) : Option Parser :=
  if name = Keyword.eof.key then some .eof
  else if name = Keyword.indent.key then some .indent
  else if c.config.bareLiterals ∧ name ≠ "" then some (.literal name)
  else none

theorem Compiler.leaf_of_undefined? {c : Compiler} {name : String} {q : Parser}
    (h : c.undefined? name = some q) : q = .eof ∨ q = .indent ∨ q = .literal name := by
  rw [undefined?] at h
  split at h
  · exact .inl (Option.some.inj h).symm
  split at h
  · exact .inr (.inl (Option.some.inj h).symm)
  split at h
  · exact .inr (.inr (Option.some.inj h).symm)
  · cases h

namespace Compiling

variable {α β : Type}

/-- The result of a step. -/
def result (m : Compiling α) (s : Session) : Except CompileError α × Session := m.run.run s

theorem result_pure (a : α) (s : Session) : (pure a : Compiling α).result s = (.ok a, s) := rfl

theorem result_get (s : Session) : (get : Compiling Session).result s = (.ok s, s) := rfl

theorem result_set (t s : Session) : (set t : Compiling Unit).result s = (.ok (), t) := rfl

theorem result_modify (f : Session → Session) (s : Session) :
    (modify f : Compiling Unit).result s = (.ok (), f s) := rfl

theorem result_bind (m : Compiling α) (k : α → Compiling β) (s : Session) :
    (m >>= k).result s = match m.result s with
      | (.ok a, t) => (k a).result t
      | (.error e, t) => (.error e, t) := by
  change (ExceptT.bindCont k (m.result s).1).run (m.result s).2 = _
  rcases m.result s with ⟨_ | _, _⟩ <;> rfl

theorem result_map (f : α → β) (m : Compiling α) (s : Session) :
    (f <$> m).result s = match m.result s with
      | (.ok a, t) => (.ok (f a), t)
      | (.error e, t) => (.error e, t) := by
  rw [map_eq_pure_bind, result_bind]
  rcases m.result s with ⟨_ | _, _⟩ <;> rfl

theorem result_tryCatch (m : Compiling α) (handle : CompileError → Compiling α) (s : Session) :
    (tryCatch m handle).result s = match m.result s with
      | (.ok a, t) => (.ok a, t)
      | (.error e, t) => (handle e).result t := by
  rcases hresult : m.result s with ⟨outcome, t⟩
  change (ExceptT.tryCatch m handle).run.run s = _
  simp only [ExceptT.tryCatch, ExceptT.run_mk, StateT.run_bind]
  have hrun : StateT.run m s = (outcome, t) := hresult
  rw [hrun]
  cases outcome <;> rfl

theorem result_bind_eq_ok {m : Compiling α} {k : α → Compiling β} {s u : Session} {b : β} :
    (m >>= k).result s = (.ok b, u) ↔
      ∃ a t, m.result s = (.ok a, t) ∧ (k a).result t = (.ok b, u) := by
  rw [result_bind]
  rcases m.result s with ⟨e | a, t⟩
  · constructor
    · intro h
      cases h
    · rintro ⟨_, _, h, _⟩
      cases h
  · constructor
    · intro h
      exact ⟨a, t, rfl, h⟩
    · rintro ⟨_, _, h, hk⟩
      cases h
      exact hk

theorem result_pure_eq_ok {a b : α} {s t : Session} :
    (pure a : Compiling α).result s = (.ok b, t) ↔ b = a ∧ t = s := by
  rw [result_pure]
  constructor
  · intro h
    cases h
    exact ⟨rfl, rfl⟩
  · rintro ⟨rfl, rfl⟩
    rfl

/-! ### Passive steps -/

/-- A step that reads the names being compiled and makes notes, and does nothing else. -/
def Passive (m : Compiling α) : Prop :=
  ∀ s table leads literals, m.result { s with table, leads, literals } =
    ((m.result s).1, { (m.result s).2 with table, leads, literals })

theorem passive_pure (a : α) : Passive (pure a) := fun _ _ _ _ => rfl

theorem passive_fail (error : String → CompileError) : Passive (fail error : Compiling α) :=
  fun _ _ _ _ => rfl

theorem passive_note (detail : String) : Passive (note detail) := fun _ _ _ _ => rfl

theorem Passive.bind {m : Compiling α} {k : α → Compiling β} (hm : Passive m)
    (hk : ∀ a, Passive (k a)) : Passive (m >>= k) := by
  intro s table leads literals
  rw [result_bind, result_bind, hm s table leads literals]
  rcases m.result s with ⟨_ | a, t⟩
  · rfl
  · exact hk a t table leads literals

theorem Passive.unchanged {m : Compiling α} (hm : Passive m) {s t : Session}
    {outcome : Except CompileError α} (h : m.result s = (outcome, t)) :
    t.table = s.table ∧ t.leads = s.leads ∧ t.literals = s.literals := by
  have hsame := hm s s.table s.leads s.literals
  rw [h] at hsame
  have ht : t = { t with table := s.table, leads := s.leads, literals := s.literals } :=
    congrArg Prod.snd hsame
  rw [ht]
  exact ⟨rfl, rfl, rfl⟩

theorem passive_checkFields (keyword : Keyword) (value : Rule) (required : String)
    (optional : List String) : Passive (checkFields keyword value required optional) := by
  rw [checkFields.eq_def]
  split
  · split
    · exact passive_fail _
    · split
      · exact passive_fail _
      · split
        · exact passive_fail _
        · exact passive_pure _
  · exact passive_fail _

theorem passive_checkFlag (value : Rule) (flag : String) : Passive (checkFlag value flag) := by
  rw [checkFlag]
  split
  · exact passive_pure _
  · exact passive_pure _
  · exact passive_pure _
  · exact passive_fail _

theorem passive_checks (value : Rule) (keyword : Keyword) : Passive (checks value keyword) := by
  cases keyword
  case astNode =>
    refine (passive_checkFields _ _ _ _).bind fun _ => ?_
    split
    · exact passive_pure _
    · exact passive_pure _
    · exact passive_fail _
  case astProp =>
    exact (passive_checkFields _ _ _ _).bind fun _ =>
      (passive_checkFlag _ _).bind fun _ => passive_checkFlag _ _
  all_goals exact passive_pure _

theorem passive_introduction (r : Rule) : Passive (introduction r) := by
  rw [introduction.eq_def]
  split
  · split
    · exact (passive_note _).bind fun _ => passive_checks _ _
    · exact passive_pure _
  · exact passive_pure _

theorem passive_literal (text : String) : Passive (literal text) := by
  rw [literal]
  split
  · exact passive_fail _
  · exact passive_pure _

theorem passive_undefined (c : Compiler) (text : String) : Passive (undefined c text) := by
  rw [undefined]
  split
  · exact passive_pure _
  split
  · exact passive_pure _
  split
  · exact (passive_note _).bind fun _ => passive_literal _
  · exact passive_fail _

theorem literal_eq_ok {text : String} {s t : Session} {q : Parser}
    (h : (literal text).result s = (.ok q, t)) : text ≠ "" ∧ q = .literal text := by
  rw [literal] at h
  split at h
  · cases h
  · rename_i hne
    exact ⟨hne, (result_pure_eq_ok.1 h).1⟩

theorem undefined_eq_ok {c : Compiler} {text : String} {s t : Session} {q : Parser}
    (h : (undefined c text).result s = (.ok q, t)) : c.undefined? text = some q := by
  rw [undefined] at h
  rw [Compiler.undefined?]
  split at h
  · rename_i heof
    rw [if_pos heof, (result_pure_eq_ok.1 h).1]
  rename_i heof
  rw [if_neg heof]
  split at h
  · rename_i hindent
    rw [if_pos hindent, (result_pure_eq_ok.1 h).1]
  rename_i hindent
  rw [if_neg hindent]
  split at h
  · rename_i hbare
    obtain ⟨_, mid, _, h⟩ := result_bind_eq_ok.1 h
    obtain ⟨hne, rfl⟩ := literal_eq_ok h
    rw [if_pos ⟨hbare, hne⟩]
  · cases h

/-! ### Named rules -/

/-- The name is looked up; a new one is entered, compiled, and kept with its body. -/
theorem result_named (name : String) (compile : Compiling Parser) (s : Session) :
    (named name compile).result s =
      match s.table.id? name with
      | some id => (.ok id, s)
      | none =>
        match compile.result (s.entering name) with
        | (.error e, t) => (.error e, t.leaving)
        | (.ok body, t) => (.ok s.table.size, t.leaving.keeping s.table.size name body) := by
  rw [named, result_bind, result_get]
  dsimp only
  cases hid : s.table.id? name with
  | some id => rfl
  | none =>
    have hreserve : s.table.reserve name =
        (s.table.size, ⟨s.table.rules ++ [(name, none)]⟩) := by
      rw [RuleTable.reserve, hid]
      rfl
    dsimp only
    rw [result_bind, result_get]
    dsimp only
    rw [hreserve]
    dsimp only
    rw [result_bind, result_modify]
    dsimp only
    rw [result_bind, result_tryCatch, result_map]
    have hentering : { s with table := ⟨s.table.rules ++ [(name, none)]⟩
                              context := name :: s.context } = s.entering name := rfl
    rw [hentering]
    rcases compile.result (s.entering name) with ⟨_ | _, _⟩ <;> rfl

/-! ### Literals of alternatives -/

/-- The numbers of some literals, each of which gets one if it has none. -/
def numbered (texts : List String) (literals : Registry String) : BitSet × Registry String :=
  texts.foldl (fun (set, literals) text =>
    let (id, larger) := literals.getOrAdd text
    (set.addId id, larger)) (.empty literals.identity, literals)

/-- An alternative carries the numbers of its literals if it starts with nothing else. -/
theorem result_branchLiterals (c : Compiler) (r : Rule) (s : Session) :
    (branchLiterals c r).result s =
      if c.config.pruneAlternatives then
        let (first, leads) := Lead.ofRule c.leadContext r true s.leads
        if first.isPrunable then
          let (set, literals) := numbered first.literals s.literals
          (.ok (some set), { s with leads, literals })
        else (.ok none, { s with leads })
      else (.ok none, s) := by
  rw [branchLiterals, Compiler.leadContext]
  split
  · rw [result_bind, result_get]
    dsimp only
    generalize Lead.ofRule _ r true s.leads = found
    obtain ⟨first, leads⟩ := found
    dsimp only
    rw [result_bind, result_set]
    dsimp only
    split
    · rw [List.forIn_pure_yield_eq_foldl, pure_bind]
      rfl
    · rfl
  · rfl

theorem exists_result_branchLiterals (c : Compiler) (r : Rule) (s : Session) :
    ∃ first t, (branchLiterals c r).result s = (.ok first, t) ∧ t.table = s.table := by
  rw [result_branchLiterals]
  dsimp only
  split
  · split
    · exact ⟨_, _, rfl, rfl⟩
    · exact ⟨_, _, rfl, rfl⟩
  · exact ⟨_, _, rfl, rfl⟩

end Compiling

end PegGrammar
