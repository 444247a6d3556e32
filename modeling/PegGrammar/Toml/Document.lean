import PegGrammar.Toml.Section

/-!
# The tree of a TOML text

Sections are gathered into one table. Those whose paths start with the same name belong to the entry
of that name, wherever they stand; if the first of them is an element of an array, each element takes
the sections up to the next one. A table may have one header of its own, and an array no header that
is not an element of it.
-/

namespace PegGrammar.Toml

/-- The names that the paths start with, each once, in the order in which they first occur. -/
def heads (sections : List Section) : List String :=
  (sections.filterMap (·.path.head?)).eraseDups

/-- The sections whose paths start with a name, without that name. -/
def below (name : String) (sections : List Section) : List Section :=
  sections.filterMap (fun s =>
    match s.path with
    | [] => none
    | first :: path => if first = name then some { s with path } else none)

/-- The elements of an array of tables: the own entries of each, and the sections below it. Nothing
comes of it if a section in front belongs to no element or a plain header names the array itself. -/
def elements? (sections : List Section) : Option (List (List Entry × List Section)) := do
  let (elements, pending) ← sections.foldrM (fun s (elements, pending) =>
    match s.path, s.array with
    | [], true => some ((s.entries, pending) :: elements, [])
    | [], false => none
    | _ :: _, _ => some (elements, s :: pending)) ([], [])
  if pending.isEmpty then some elements else none

/-- The value of an entry from the sections below its name. `table?` makes a table of its own entries
and the sections below it. -/
def entryValue? (table? : List Entry → List Section → Option (List Entry))
    (sections : List Section) : Option Value :=
  match sections with
  | ⟨[], true, _⟩ :: _ => do
    let tables ← (← elements? sections).mapM (fun (own, inner) => table? own inner)
    some (.array (tables.map Value.table))
  | _ => do
    let inner := sections.filter (fun s => !s.path.isEmpty)
    match sections.filter (fun s => s.path.isEmpty) with
    | [] => some (.table (← table? [] inner))
    | [⟨_, false, own⟩] => some (.table (← table? own inner))
    | _ => none

/-- The entries of a table: its own, and one for each name that a section below it starts with. The
paths get shorter with each level, so as many levels as the longest has names suffice. -/
def tableOf? : Nat → List Entry → List Section → Option (List Entry)
  | 0, own, _ => some own
  | levels + 1, own, sections => do
    let entries ← (heads sections).mapM (fun name => do
      some (name, ← entryValue? (tableOf? levels) (below name sections)))
    some (own ++ entries)

def documentOf? (text : String) : Option (List Entry) := do
  match ← sectionsOf? text with
  | [] => some []
  | first :: sections =>
    tableOf? ((sections.map (·.path.length)).foldl max 0) first.entries sections

end PegGrammar.Toml

namespace PegGrammar.Rule

/-- The rule that a TOML text holds, always a map. -/
def ofToml? (text : String) : Option Rule := do
  some (.map (← Toml.entriesToRules? (← Toml.documentOf? text)))

end PegGrammar.Rule
