import PegGrammar.Program.Basic

/-!
# Keeping programs

Programs are kept by the fingerprint of their grammar, their start rule and their options, so that the
same grammar is compiled once. A compiler with replaced names is left alone, because what replaces
them has no fingerprint. Programs are numbered as they are compiled; two requests gave the very same
program when they gave the same number.
-/

namespace PegGrammar

/-- What a program is kept by. -/
structure ProgramKey where
  fingerprint : Fingerprint
  start : String
  config : Config
  deriving DecidableEq

/-- Programs that are kept, with their numbers. -/
structure ProgramCache where
  programs : List (ProgramKey × Nat × Program)
  /-- The number of the next program that is compiled. -/
  next : Nat

namespace ProgramCache

def empty : ProgramCache := ⟨[], 0⟩

/-- How many programs are kept. -/
def size (cache : ProgramCache) : Nat := cache.programs.length

/-- Whether no program is kept. -/
def isEmpty (cache : ProgramCache) : Bool := cache.programs.isEmpty

def clear (cache : ProgramCache) : ProgramCache := { cache with programs := [] }

/-- What the program of a compiler and a start rule is kept by. -/
def key (compiler : Compiler) (start : String) : ProgramKey :=
  ⟨compiler.fingerprint, start, compiler.config⟩

/-- The program of a compiler and a start rule with its number: the one that is kept, or else a new
one, which is kept from then on. -/
def getOrCompile (cache : ProgramCache) (compiler : Compiler) (start : String) :
    Except CompileError (Nat × Program) × ProgramCache :=
  let fresh := (compiler.compile start).1.map (fun program => (cache.next, program))
  let counted := { cache with next := cache.next + 1 }
  if compiler.overrides.isEmpty then
    match cache.programs.lookup (key compiler start) with
    | some kept => (.ok kept, cache)
    | none =>
      match fresh with
      | .error error => (.error error, cache)
      | .ok entry =>
        (.ok entry,
          { counted with programs := cache.programs ++ [(key compiler start, entry)] })
  else (fresh, counted)

end ProgramCache

end PegGrammar
