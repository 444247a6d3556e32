/-!
# Registries

A registry gives values small numbers, so that sets of values can be kept as bits. Numbers start at
one: zero stands for a value that has none. A binding is never changed or removed. Fresh numbers lie
above every number that was ever bound, so one that was chosen by hand is not given out again.

The bindings are kept as the list of entries that a registry shows, in the order of their numbers, and not as
an unordered bijection that is sorted whenever its entries are asked for. So sorting is not modelled as a step:
the list is in order because a new binding is put in its place.
-/

namespace PegGrammar

/-- Why a registry refuses to look up or bind a number. -/
inductive RegistryError where
  /-- The number is bound to no value. -/
  | unknownId (id : Nat)
  /-- Zero stands for a value without a number. -/
  | zeroId
  /-- The number is bound to another value. -/
  | idTaken (id : Nat)
  /-- The value is bound to another number, which is given. -/
  | valueTaken (id : Nat)
  deriving DecidableEq, Repr

def RegistryError.message : RegistryError → String
  | .unknownId id => "no value is bound to id " ++ toString id
  | .zeroId => "id 0 is reserved and can't be bound"
  | .idTaken id => "id " ++ toString id ++ " is already bound to another value"
  | .valueTaken id => "value is already bound to id " ++ toString id

/-- Values and their numbers. -/
structure Registry (α : Type) where
  /-- Which registry this is. Two registries are different ones even where all their bindings are the same. -/
  identity : Nat
  /-- The bindings, in increasing order of their numbers. -/
  entries : List (Nat × α)
  /-- The largest number that was ever bound. -/
  highWater : Nat

namespace Registry

variable {α : Type}

def empty (identity : Nat) : Registry α := ⟨identity, [], 0⟩

def insertById (id : Nat) (value : α) : List (Nat × α) → List (Nat × α)
  | [] => [(id, value)]
  | (i, v) :: entries =>
    if id < i then (id, value) :: (i, v) :: entries else (i, v) :: insertById id value entries

def value? (r : Registry α) (id : Nat) : Option α := r.entries.lookup id

/-- The value of a number, or why there is none. -/
def valueOf (r : Registry α) (id : Nat) : Except RegistryError α :=
  match r.value? id with
  | some value => .ok value
  | none => .error (.unknownId id)

def size (r : Registry α) : Nat := r.entries.length

def shown (r : Registry α) (showValue : α → String) : String :=
  "\x7b" ++ String.intercalate ", "
    (r.entries.map (fun (id, value) => toString id ++ ": " ++ showValue value)) ++ "\x7d"

variable [DecidableEq α]

def id? (r : Registry α) (value : α) : Option Nat :=
  (r.entries.find? (fun (_, v) => v = value)).map Prod.fst

/-- The number of a value, zero if it has none. -/
def idOf (r : Registry α) (value : α) : Nat := (r.id? value).getD 0

/-- Binds a value and a number to each other. What either was bound to before, it is bound to no more. -/
def rebind (id : Nat) (value : α) (entries : List (Nat × α)) : List (Nat × α) :=
  insertById id value (entries.filter fun (i, v) => i ≠ id ∧ v ≠ value)

/-- The number of a value, which gets a fresh one if it has none. -/
def getOrAdd (r : Registry α) (value : α) : Nat × Registry α :=
  match r.id? value with
  | some id => (id, r)
  | none =>
    let id := r.highWater + 1
    (id, { r with entries := rebind id value r.entries, highWater := id })

/-- Binds a value to a chosen number. To bind the same pair again changes nothing. -/
def bindAs (r : Registry α) (value : α) (id : Nat) : Except RegistryError (Registry α) :=
  if id = 0 then .error .zeroId
  else
    match r.id? value with
    | some bound => if bound = id then .ok r else .error (.valueTaken bound)
    | none =>
      if (r.value? id).isSome then .error (.idTaken id)
      else .ok { r with entries := rebind id value r.entries, highWater := max r.highWater id }

end Registry

end PegGrammar
