/-!
# Rules

A grammar document is a tree of texts, lists and maps. The root maps rule names to definitions;
inside a definition a text refers to another rule or to a built-in, a list is a sequence, and a map
with one reserved key applies a combinator.

The entries of a map are kept in strictly increasing order of their keys. Keys compare by code
point, which is the order of their UTF-8 bytes. `insertEntry` keeps that order, and every reader
builds its maps with it, so two documents that differ in the order of their keys are the same rule.
-/

namespace PegGrammar

/-- One node of a grammar document. -/
inductive Rule where
  | text (s : String)
  | list (items : List Rule)
  | map (entries : List (String × Rule))
  deriving Inhabited

namespace Rule

mutual

def decEq : (a b : Rule) → Decidable (a = b)
  | .text s, .text t => if h : s = t then isTrue (h ▸ rfl) else isFalse (fun e => h (by cases e; rfl))
  | .list xs, .list ys =>
    match decEqList xs ys with
    | isTrue h => isTrue (h ▸ rfl)
    | isFalse h => isFalse (fun e => h (by cases e; rfl))
  | .map xs, .map ys =>
    match decEqEntries xs ys with
    | isTrue h => isTrue (h ▸ rfl)
    | isFalse h => isFalse (fun e => h (by cases e; rfl))
  | .text _, .list _ | .text _, .map _ | .list _, .text _ | .list _, .map _ | .map _, .text _
  | .map _, .list _ => isFalse (fun e => by cases e)

def decEqList : (a b : List Rule) → Decidable (a = b)
  | [], [] => isTrue rfl
  | x :: xs, y :: ys =>
    match decEq x y, decEqList xs ys with
    | isTrue h, isTrue k => isTrue (by rw [h, k])
    | isFalse h, _ => isFalse (fun e => h (by cases e; rfl))
    | _, isFalse k => isFalse (fun e => k (by cases e; rfl))
  | [], _ :: _ | _ :: _, [] => isFalse (fun e => by cases e)

def decEqEntries : (a b : List (String × Rule)) → Decidable (a = b)
  | [], [] => isTrue rfl
  | (k, x) :: xs, (l, y) :: ys =>
    if hk : k = l then
      match decEq x y, decEqEntries xs ys with
      | isTrue h, isTrue k => isTrue (by rw [hk, h, k])
      | isFalse h, _ => isFalse (fun e => h (by cases e; rfl))
      | _, isFalse k => isFalse (fun e => k (by cases e; rfl))
    else isFalse (fun e => hk (by cases e; rfl))
  | [], _ :: _ | _ :: _, [] => isFalse (fun e => by cases e)

end

instance : DecidableEq Rule := decEq

/-- Puts a value under a key: in its place by key order, or instead of the value that the key had. -/
def insertEntry (key : String) (value : Rule) : List (String × Rule) → List (String × Rule)
  | [] => [(key, value)]
  | (k, v) :: entries =>
    match compare key k with
    | .lt => (key, value) :: (k, v) :: entries
    | .eq => (key, value) :: entries
    | .gt => (k, v) :: insertEntry key value entries

/-- The map that applies the combinator `key` to `value`. -/
def combinator (key : String) (value : Rule) : Rule := .map [(key, value)]

/-- The map of the given names to their rules; a later pair replaces an earlier one. -/
def grammar (pairs : List (String × Rule)) : Rule :=
  .map (pairs.foldl (fun entries (name, rule) => insertEntry name rule entries) [])

def asText? : Rule → Option String
  | .text s => some s
  | _ => none

def asList? : Rule → Option (List Rule)
  | .list items => some items
  | _ => none

/-- The entries of a map, in key order. -/
def asMap? : Rule → Option (List (String × Rule))
  | .map entries => some entries
  | _ => none

/-- The only entry of a map that has exactly one. -/
def singleEntry? : Rule → Option (String × Rule)
  | .map [entry] => some entry
  | _ => none

def field? (name : String) : Rule → Option Rule
  | .map entries => entries.lookup name
  | _ => none

end Rule

end PegGrammar
