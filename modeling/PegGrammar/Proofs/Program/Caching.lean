import Mathlib
import PegGrammar.Program.Cache
import PegGrammar.Proofs.Rule.Shape

/-!
# A cache is transparent

What a cache keeps was compiled without replaced names since it was last cleared, and everything that
was so compiled is kept, once. The key of a program leads back to the compiler: it holds the start rule
and the options, the fingerprint stands for the grammar, and the engine of the scripts is shared. So
what is found under a key is what would be compiled.
-/

namespace PegGrammar

/-- A call of a cache. -/
inductive CacheCall where
  | request (compiler : Compiler) (start : String)
  | clear

namespace CacheCall

def isRequest : CacheCall → Bool
  | .request _ _ => true
  | .clear => false

/-- The grammar, the start rule and the options of a request without replaced names that compiles. -/
def compiled? : CacheCall → Option (Rule × String × Config)
  | .request compiler start =>
    if compiler.overrides.isEmpty ∧ (compiler.compile start).1.isOk then
      some (.map compiler.grammar, start, compiler.config)
    else none
  | .clear => none

/-- The calls behind the last one that clears. -/
def sinceClear (calls : List CacheCall) : List CacheCall := calls.rtakeWhile isRequest

/-- The compilers of the calls share an engine, and their fingerprints tell their grammars apart. -/
structure Consistent (engine : ScriptEngine) (calls : List CacheCall) : Prop where
  made : ∀ {c start}, .request c start ∈ calls →
    ∃ grammar config overrides, Compiler.ofRule grammar engine config overrides = .ok c
  separate : ∀ {c d start start'}, .request c start ∈ calls → .request d start' ∈ calls →
    c.fingerprint = d.fingerprint → c.grammar = d.grammar

namespace Consistent

variable {engine : ScriptEngine} {calls : List CacheCall} (h : Consistent engine calls)

include h

theorem mono {some : List CacheCall} (hsubset : some ⊆ calls) : Consistent engine some :=
  ⟨fun hc => h.made (hsubset hc), fun hc hd => h.separate (hsubset hc) (hsubset hd)⟩

theorem scripts_and_fingerprint {c : Compiler} {start : String} (hc : .request c start ∈ calls) :
    c.scripts = engine ∧ c.fingerprint = .ofRule (.map c.grammar) := by
  obtain ⟨grammar, config, overrides, hmade⟩ := h.made hc
  rw [Compiler.ofRule.eq_def] at hmade
  split at hmade <;> cases hmade
  exact ⟨rfl, rfl⟩

end Consistent

end CacheCall

namespace ProgramCache

open CacheCall (request Consistent sinceClear)

/-! ### One request -/

/-- What can come of a request: the outcome and the cache that is left. -/
inductive Answers (cache : ProgramCache) (c : Compiler) (start : String) :
    Except CompileError (Nat × Program) → ProgramCache → Prop
  | kept {entry : Nat × Program} : c.overrides = [] →
      cache.programs.lookup (key c start) = some entry → Answers cache c start (.ok entry) cache
  | added {p : Program} : c.overrides = [] → cache.programs.lookup (key c start) = none →
      (c.compile start).1 = .ok p → Answers cache c start (.ok (cache.next, p))
        ⟨cache.programs ++ [(key c start, cache.next, p)], cache.next + 1⟩
  | failed {error : CompileError} : c.overrides = [] →
      cache.programs.lookup (key c start) = none → (c.compile start).1 = .error error →
      Answers cache c start (.error error) cache
  | replaced : c.overrides ≠ [] → Answers cache c start
      ((c.compile start).1.map (fun p => (cache.next, p))) { cache with next := cache.next + 1 }

theorem answers_getOrCompile (cache : ProgramCache) (c : Compiler) (start : String) :
    Answers cache c start (cache.getOrCompile c start).1 (cache.getOrCompile c start).2 := by
  rw [getOrCompile]
  split
  · rename_i hempty
    rw [List.isEmpty_iff] at hempty
    split
    · rename_i hlookup
      exact .kept hempty hlookup
    · rename_i hlookup
      cases hcompile : (c.compile start).1 with
      | error error => exact .failed hempty hlookup hcompile
      | ok p => exact .added hempty hlookup hcompile
  · rename_i hoverrides
    exact .replaced (by simpa using hoverrides)

variable {cache after : ProgramCache} {c : Compiler} {start : String}
  {outcome : Except CompileError (Nat × Program)}

theorem Answers.programs_eq (h : Answers cache c start outcome after)
    (hfails : c.overrides ≠ [] ∨ ∃ error, outcome = .error error) :
    after.programs = cache.programs := by
  cases h with
  | added hempty => simp [hempty] at hfails
  | kept | failed | replaced => rfl

theorem Answers.lookup_eq (h : Answers cache c start outcome after) {k : ProgramKey}
    {entry : Nat × Program} (hlookup : cache.programs.lookup k = some entry) :
    after.programs.lookup k = some entry := by
  cases h with
  | added => simp [List.lookup_append, hlookup]
  | kept | failed | replaced => exact hlookup

theorem Answers.lookup_key (h : Answers cache c start outcome after) (hempty : c.overrides = [])
    {entry : Nat × Program} (houtcome : outcome = .ok entry) :
    after.programs.lookup (key c start) = some entry := by
  cases h with
  | kept _ hlookup => cases houtcome; exact hlookup
  | added _ hlookup => cases houtcome; simp [List.lookup_append, hlookup]
  | failed => cases houtcome
  | replaced hoverrides => exact absurd hempty hoverrides

theorem Answers.outcome_eq (h : Answers cache c start outcome after) (hempty : c.overrides = [])
    {entry : Nat × Program} (hlookup : cache.programs.lookup (key c start) = some entry) :
    outcome = .ok entry := by
  cases h with
  | kept _ hfound =>
    cases hfound.symm.trans hlookup
    rfl
  | added _ hnone => cases hnone.symm.trans hlookup
  | failed _ hnone => cases hnone.symm.trans hlookup
  | replaced hoverrides => exact absurd hempty hoverrides

/-- If what is found is what would be compiled, then every request gives what would be compiled. -/
theorem Answers.map_eq_compile (h : Answers cache c start outcome after)
    (hfound : ∀ entry, c.overrides = [] → cache.programs.lookup (key c start) = some entry →
      (c.compile start).1 = .ok entry.2) : outcome.map Prod.snd = (c.compile start).1 := by
  cases h with
  | kept hempty hlookup => rw [hfound _ hempty hlookup]; rfl
  | added _ _ hcompile | failed _ _ hcompile => rw [hcompile]; rfl
  | replaced => cases (c.compile start).1 <;> rfl

/-! ### Any calls -/

/-- The cache after a call. -/
def call (cache : ProgramCache) : CacheCall → ProgramCache
  | .request c start => (cache.getOrCompile c start).2
  | .clear => cache.clear

/-- A new cache after calls. -/
def afterCalls (calls : List CacheCall) : ProgramCache := calls.foldl call empty

/-- What a request gives behind calls of a new cache. -/
def answer (calls : List CacheCall) (c : Compiler) (start : String) :
    Except CompileError (Nat × Program) :=
  ((afterCalls calls).getOrCompile c start).1

theorem afterCalls_append (calls more : List CacheCall) :
    afterCalls (calls ++ more) = more.foldl call (afterCalls calls) := List.foldl_append

/-- A cache keeps what the calls compiled, each program once. -/
structure Keeps (calls : List CacheCall) (cache : ProgramCache) : Prop where
  sound : ∀ entry ∈ cache.programs, ∃ c start, request c start ∈ calls ∧ c.overrides = [] ∧
    entry.1 = key c start ∧ (c.compile start).1 = .ok entry.2.2
  complete : ∀ c start p, request c start ∈ calls → c.overrides = [] →
    (c.compile start).1 = .ok p → key c start ∈ cache.programs.map Prod.fst
  nodup : (cache.programs.map Prod.fst).Nodup

theorem keeps_nil {cache : ProgramCache} (h : cache.programs = []) : Keeps [] cache where
  sound := by simp [h]
  complete := by simp
  nodup := by simp [h]

theorem not_mem_keys_of_lookup {k : ProgramKey} (h : cache.programs.lookup k = none) :
    k ∉ cache.programs.map Prod.fst := by
  intro hmem
  obtain ⟨entry, hentry, rfl⟩ := List.mem_map.1 hmem
  simpa using List.lookup_eq_none_iff.1 h entry hentry

theorem mem_keys_of_lookup {k : ProgramKey} {entry : Nat × Program}
    (h : cache.programs.lookup k = some entry) : k ∈ cache.programs.map Prod.fst :=
  List.mem_map_of_mem (mem_of_lookup h)

theorem Keeps.answered {calls : List CacheCall} (h : Keeps calls cache)
    (hanswers : Answers cache c start outcome after) :
    Keeps (calls ++ [request c start]) after := by
  have hsound : ∀ entry ∈ cache.programs, ∃ d start',
      request d start' ∈ calls ++ [request c start] ∧ d.overrides = [] ∧
      entry.1 = key d start' ∧ (d.compile start').1 = .ok entry.2.2 := by
    intro entry hentry
    obtain ⟨d, start', hmem, hd⟩ := h.sound entry hentry
    exact ⟨d, start', List.mem_append_left _ hmem, hd⟩
  have hcomplete : (∀ k ∈ cache.programs.map Prod.fst, k ∈ after.programs.map Prod.fst) →
      (∀ p, c.overrides = [] → (c.compile start).1 = .ok p →
        key c start ∈ after.programs.map Prod.fst) →
      ∀ d start' p, request d start' ∈ calls ++ [request c start] → d.overrides = [] →
        (d.compile start').1 = .ok p → key d start' ∈ after.programs.map Prod.fst := by
    intro hkept hnew d start' p hmem hempty hcompile
    rcases List.mem_append.1 hmem with hmem | hmem
    · exact hkept _ (h.complete d start' p hmem hempty hcompile)
    · cases List.mem_singleton.1 hmem
      exact hnew p hempty hcompile
  cases hanswers with
  | kept hempty hlookup =>
    exact ⟨hsound, hcomplete (fun _ => id) (fun _ _ _ => mem_keys_of_lookup hlookup), h.nodup⟩
  | added hempty hlookup hcompile =>
    have hkey := not_mem_keys_of_lookup hlookup
    refine ⟨fun entry hentry => ?_, hcomplete (fun k hk => ?_) (fun _ _ _ => by simp), ?_⟩
    · rcases List.mem_append.1 hentry with hentry | hentry
      · exact hsound entry hentry
      · rw [List.mem_singleton.1 hentry]
        exact ⟨c, start, by simp, hempty, rfl, hcompile⟩
    · rw [List.map_append]
      exact List.mem_append_left _ hk
    · rw [List.map_append, List.nodup_append]
      refine ⟨h.nodup, List.nodup_singleton _, fun k hk l hl heq => hkey ?_⟩
      have hl : l = key c start := List.mem_singleton.1 hl
      rwa [← hl, ← heq]
  | failed hempty _ herror =>
    exact ⟨hsound, hcomplete (fun _ => id) (fun p _ hp => by cases herror.symm.trans hp), h.nodup⟩
  | replaced hoverrides =>
    exact ⟨hsound, hcomplete (fun _ => id) (fun _ hempty _ => absurd hempty hoverrides), h.nodup⟩

theorem keeps_afterCalls (calls : List CacheCall) :
    Keeps (sinceClear calls) (afterCalls calls) := by
  induction calls using List.reverseRecOn with
  | nil => exact keeps_nil rfl
  | append_singleton calls call ih =>
    rw [afterCalls_append]
    cases call with
    | request c start =>
      rw [sinceClear, List.rtakeWhile_concat_pos _ _ _ rfl]
      exact ih.answered (answers_getOrCompile _ c start)
    | clear =>
      rw [sinceClear, List.rtakeWhile_concat_neg _ _ _ (by simp [CacheCall.isRequest])]
      exact keeps_nil rfl

/-! ### Consistent calls -/

variable {engine : ScriptEngine} {calls : List CacheCall}

theorem eq_of_key_eq (h : Consistent engine calls) {d : Compiler} {start' : String}
    (hc : request c start ∈ calls) (hd : request d start' ∈ calls)
    (hempty : c.overrides = []) (hempty' : d.overrides = []) (hkey : key c start = key d start') :
    c = d ∧ start = start' := by
  obtain ⟨hfingerprint, hstart, hconfig⟩ := ProgramKey.mk.inj hkey
  have hgrammar := h.separate hc hd hfingerprint
  have hscripts := (h.scripts_and_fingerprint hc).1.trans (h.scripts_and_fingerprint hd).1.symm
  obtain ⟨⟩ := c
  obtain ⟨⟩ := d
  simp_all

theorem answer_eq_compile (h : Consistent engine (calls ++ [request c start])) :
    (answer calls c start).map Prod.snd = (c.compile start).1 := by
  refine (answers_getOrCompile _ c start).map_eq_compile fun entry hempty hlookup => ?_
  obtain ⟨d, start', hmem, hempty', hkey, hcompile⟩ :=
    (keeps_afterCalls calls).sound _ (mem_of_lookup hlookup)
  have hd := List.mem_append_left [request c start] ((List.rtakeWhile_suffix _ _).subset hmem)
  obtain ⟨rfl, rfl⟩ := eq_of_key_eq h (by simp) hd hempty hempty' hkey
  exact hcompile

theorem mem_compiled {t : Rule × String × Config} :
    t ∈ calls.filterMap CacheCall.compiled? ↔ ∃ c start p, request c start ∈ calls ∧
      c.overrides = [] ∧ (c.compile start).1 = .ok p ∧ t = (.map c.grammar, start, c.config) := by
  rw [List.mem_filterMap]
  constructor
  · rintro ⟨call, hmem, ht⟩
    cases call with
    | clear => cases ht
    | request c start =>
      rw [CacheCall.compiled?] at ht
      split at ht
      · rename_i hcompiles
        obtain ⟨hempty, hok⟩ := hcompiles
        cases hcompile : (c.compile start).1 with
        | error error => rw [hcompile] at hok; cases hok
        | ok p => exact ⟨c, start, p, hmem, List.isEmpty_iff.1 hempty, hcompile, by cases ht; rfl⟩
      · cases ht
  · rintro ⟨c, start, p, hmem, hempty, hcompile, rfl⟩
    exact ⟨_, hmem, by simp [CacheCall.compiled?, hempty, hcompile, Except.isOk, Except.toBool]⟩

/-- What the program of a grammar, a start rule and options is kept by. -/
def keyOf (t : Rule × String × Config) : ProgramKey := ⟨.ofRule t.1, t.2.1, t.2.2⟩

theorem keyOf_eq_key (h : Consistent engine calls) (hc : request c start ∈ calls) :
    keyOf (.map c.grammar, start, c.config) = key c start := by
  rw [keyOf, key, (h.scripts_and_fingerprint hc).2]

theorem injOn_keyOf (h : Consistent engine calls) :
    Set.InjOn keyOf (calls.filterMap CacheCall.compiled?).toFinset := by
  intro t ht u hu hkey
  simp only [List.coe_toFinset, Set.mem_ofPred_eq, mem_compiled] at ht hu
  obtain ⟨c, start, p, hc, hempty, -, rfl⟩ := ht
  obtain ⟨d, start', q, hd, hempty', -, rfl⟩ := hu
  rw [keyOf_eq_key h hc, keyOf_eq_key h hd] at hkey
  obtain ⟨rfl, rfl⟩ := eq_of_key_eq h hc hd hempty hempty' hkey
  rfl

theorem Keeps.keys_eq_image (hkeeps : Keeps calls cache) (h : Consistent engine calls) :
    (cache.programs.map Prod.fst).toFinset
      = (calls.filterMap CacheCall.compiled?).toFinset.image keyOf := by
  ext k
  simp only [List.mem_toFinset, Finset.mem_image, mem_compiled]
  constructor
  · intro hk
    obtain ⟨entry, hentry, rfl⟩ := List.mem_map.1 hk
    obtain ⟨c, start, hmem, hempty, hkey, hcompile⟩ := hkeeps.sound entry hentry
    exact ⟨_, ⟨c, start, _, hmem, hempty, hcompile, rfl⟩, by rw [keyOf_eq_key h hmem, hkey]⟩
  · rintro ⟨_, ⟨c, start, p, hmem, hempty, hcompile, rfl⟩, rfl⟩
    rw [keyOf_eq_key h hmem]
    exact hkeeps.complete c start p hmem hempty hcompile

theorem Keeps.size_eq (hkeeps : Keeps calls cache) (h : Consistent engine calls) :
    cache.size = (calls.filterMap CacheCall.compiled?).toFinset.card :=
  calc cache.size
      = (cache.programs.map Prod.fst).toFinset.card := by
        rw [List.toFinset_card_of_nodup hkeeps.nodup, List.length_map, size]
    _ = _ := by rw [hkeeps.keys_eq_image h, Finset.card_image_of_injOn (injOn_keyOf h)]

/-! ### The same program -/

theorem lookup_foldl_call {k : ProgramKey} {entry : Nat × Program} {between : List CacheCall}
    (hbetween : ∀ call ∈ between, call.isRequest) (h : cache.programs.lookup k = some entry) :
    (between.foldl call cache).programs.lookup k = some entry := by
  induction between generalizing cache with
  | nil => exact h
  | cons call between ih =>
    obtain ⟨hcall, hmore⟩ := List.forall_mem_cons.1 hbetween
    cases call with
    | clear => cases hcall
    | request c start => exact ih hmore ((answers_getOrCompile _ c start).lookup_eq h)

/-- What a request without replaced names gave is given again under its key, until all is cleared. -/
theorem answer_again {before between : List CacheCall} {d : Compiler} {entry : Nat × Program}
    (hempty : c.overrides = []) (hempty' : d.overrides = []) (hkey : key c start = key d start)
    (hbetween : ∀ call ∈ between, call.isRequest) (h : answer before c start = .ok entry) :
    answer (before ++ request c start :: between) d start = .ok entry := by
  have hfound := lookup_foldl_call hbetween
    ((answers_getOrCompile (afterCalls before) c start).lookup_key hempty h)
  refine (answers_getOrCompile _ d start).outcome_eq hempty' ?_
  rw [afterCalls_append, ← hkey]
  exact hfound

/-- The numbers of all that is kept were given. -/
def Numbered (cache : ProgramCache) : Prop := ∀ entry ∈ cache.programs, entry.2.1 < cache.next

/-- A request gives a number that was given, or else the next one. -/
theorem Answers.numbered (h : Answers cache c start outcome after) (hcache : cache.Numbered) :
    after.Numbered ∧ cache.next ≤ after.next ∧
      ∀ entry, outcome = .ok entry → entry.1 < after.next := by
  cases h with
  | kept _ hlookup =>
    refine ⟨hcache, le_rfl, fun entry houtcome => ?_⟩
    cases houtcome
    exact hcache _ (mem_of_lookup hlookup)
  | added =>
    refine ⟨fun entry hentry => ?_, Nat.le_succ _, fun entry houtcome => ?_⟩
    · rcases List.mem_append.1 hentry with hentry | hentry
      · exact Nat.lt_succ_of_lt (hcache entry hentry)
      · rw [List.mem_singleton.1 hentry]
        exact Nat.lt_succ_self _
    · cases houtcome
      exact Nat.lt_succ_self _
  | failed => exact ⟨hcache, le_rfl, fun entry houtcome => by cases houtcome⟩
  | replaced =>
    refine ⟨fun entry hentry => Nat.lt_succ_of_lt (hcache entry hentry), Nat.le_succ _, ?_⟩
    intro entry houtcome
    cases hcompile : (c.compile start).1 <;> rw [hcompile] at houtcome <;> cases houtcome
    exact Nat.lt_succ_self _

theorem Answers.number_eq (h : Answers cache c start outcome after) {entry : Nat × Program}
    (houtcome : outcome = .ok entry)
    (hnew : c.overrides ≠ [] ∨ cache.programs.lookup (key c start) = none) :
    entry.1 = cache.next := by
  cases h with
  | kept hempty hlookup => simp [hempty, hlookup] at hnew
  | added =>
    cases houtcome
    rfl
  | failed => cases houtcome
  | replaced =>
    cases hcompile : (c.compile start).1 <;> rw [hcompile] at houtcome <;> cases houtcome
    rfl

theorem numbered_foldl_call (hcache : cache.Numbered) (calls : List CacheCall) :
    (calls.foldl call cache).Numbered ∧ cache.next ≤ (calls.foldl call cache).next := by
  induction calls generalizing cache with
  | nil => exact ⟨hcache, le_rfl⟩
  | cons first calls ih =>
    have hfirst : (cache.call first).Numbered ∧ cache.next ≤ (cache.call first).next := by
      cases first with
      | clear => exact ⟨by simp [Numbered, call, clear], le_rfl⟩
      | request c start =>
        have h := (answers_getOrCompile cache c start).numbered hcache
        exact ⟨h.1, h.2.1⟩
    have hrest := ih hfirst.1
    exact ⟨hrest.1, hfirst.2.trans hrest.2⟩

theorem number_lt_number {before between : List CacheCall} {d : Compiler} {start' : String}
    {first second : Nat × Program} (hfirst : answer before c start = .ok first)
    (hsecond : answer (before ++ request c start :: between) d start' = .ok second)
    (hnew : d.overrides ≠ [] ∨ (afterCalls (before ++ request c start :: between)).programs.lookup
      (key d start') = none) : first.1 < second.1 := by
  have hbefore : (afterCalls before).Numbered :=
    (numbered_foldl_call (by simp [Numbered, empty]) before).1
  have hanswers := (answers_getOrCompile (afterCalls before) c start).numbered hbefore
  calc first.1
      < ((afterCalls before).getOrCompile c start).2.next := hanswers.2.2 _ hfirst
    _ ≤ (afterCalls (before ++ request c start :: between)).next := by
      rw [afterCalls_append]
      exact (numbered_foldl_call hanswers.1 between).2
    _ = second.1 := ((answers_getOrCompile _ d start').number_eq hsecond hnew).symm

/-- A cache is transparent. Whatever is called before, a request gives what its compiler compiles, or no program where
a rule expands without end. This takes for granted, as always, that engines are functions. Two requests without
replaced names that agree on the grammar, the start rule and the options, and between which nothing is cleared, give
the very same program. A request with replaced names or without success leaves what is kept. And as many programs are
kept as different grammars with a start rule and options were compiled, without replaced names, since the cache was
last cleared. -/
theorem transparent (h : Consistent engine calls) :
    (∀ {before : List CacheCall} {c : Compiler} {start : String},
      before ++ [request c start] <+: calls →
      (answer before c start).map Prod.snd = (c.compile start).1) ∧
    (∀ {before between : List CacheCall} {c d : Compiler} {start : String}
        {first second : Nat × Program},
      before ++ request c start :: between ++ [request d start] <+: calls →
      (∀ call ∈ between, call.isRequest) → c.overrides = [] → d.overrides = [] →
      c.grammar = d.grammar → c.config = d.config → answer before c start = .ok first →
      answer (before ++ request c start :: between) d start = .ok second → first = second) ∧
    (∀ {before : List CacheCall} {c : Compiler} {start : String},
      before ++ [request c start] <+: calls →
      (c.overrides ≠ [] ∨ ∃ error, answer before c start = .error error) →
      (afterCalls (before ++ [request c start])).programs = (afterCalls before).programs) ∧
    (afterCalls calls).size
      = ((sinceClear calls).filterMap CacheCall.compiled?).toFinset.card := by
  refine ⟨fun hcalls => answer_eq_compile (h.mono hcalls.subset), ?_, fun _ hfails => ?_,
    (keeps_afterCalls calls).size_eq (h.mono (List.rtakeWhile_suffix _ _).subset)⟩
  · intro before between c d start first second hcalls hbetween hempty hempty' hgrammar hconfig
      hfirst hsecond
    have hc : request c start ∈ calls := hcalls.subset (by simp)
    have hd : request d start ∈ calls := hcalls.subset (by simp)
    have hfingerprint : c.fingerprint = d.fingerprint := by
      rw [(h.scripts_and_fingerprint hc).2, (h.scripts_and_fingerprint hd).2, hgrammar]
    have hkey : key c start = key d start := by rw [key, key, hfingerprint, hconfig]
    have hagain := answer_again hempty hempty' hkey hbetween hfirst
    exact Except.ok.inj (hagain.symm.trans hsecond)
  · rw [afterCalls_append]
    exact (answers_getOrCompile _ _ _).programs_eq hfails

/-- A compiler of two rules. -/
def letters : Compiler where
  grammar := [("a", .combinator "$literal" (.text "a")), ("b", .text "a")]
  fingerprint := .ofRule (.map [("a", .combinator "$literal" (.text "a")), ("b", .text "a")])
  scripts := .none
  config := .default
  overrides := []

/-- Calls that compile, find, fail, replace a name, change the options and clear. -/
def lettersCalls : List CacheCall :=
  [request letters "a", .clear, request letters "b", request letters "a", request letters "b",
    request letters "c", request { letters with overrides := [("a", .eof)] } "b",
    request { letters with config := { Config.default with trace := true } } "b"]

theorem transparent_letters :
    Consistent .none lettersCalls ∧ (afterCalls lettersCalls).size = 3 := by
  have hmade : ∀ {c start}, request c start ∈ lettersCalls →
      c.grammar = letters.grammar ∧ ∃ config overrides,
        Compiler.ofRule (.map letters.grammar) .none config overrides = .ok c := by
    intro c start hmem
    simp only [lettersCalls, List.mem_cons, CacheCall.request.injEq, reduceCtorEq, false_or,
      List.not_mem_nil, or_false] at hmem
    rcases hmem with h | h | h | h | h | h | h <;> rw [h.1] <;> exact ⟨rfl, _, _, rfl⟩
  have h : Consistent .none lettersCalls :=
    ⟨fun hc => ⟨_, (hmade hc).2⟩, fun hc hd _ => (hmade hc).1.trans (hmade hd).1.symm⟩
  refine ⟨h, (transparent h).2.2.2.trans ?_⟩
  have hcompiled : (sinceClear lettersCalls).filterMap CacheCall.compiled? =
      [(.map letters.grammar, "b", .default), (.map letters.grammar, "a", .default),
        (.map letters.grammar, "b", .default),
        (.map letters.grammar, "b", { Config.default with trace := true })] := by
    rfl
  rw [hcompiled]
  decide

end ProgramCache

end PegGrammar
