import PegGrammar.Lead.Basic
import PegGrammar.Rule.Keyword
import PegGrammar.Rule.Basic
import PegGrammar.Pattern.Basic

/-!
# First sets of rules

The first set of a rule is found by walking through its definition and through the rules that it
names. A name that is being expanded already adds nothing new and counts as empty. Results for names
are kept, but only those that did not come back to a name further out, because such a result depends
on that name being expanded around it.
-/

namespace PegGrammar

/-- What is analysed: the rules of a grammar, and how other names are taken. -/
structure LeadContext where
  grammar : List (String × Rule)
  /-- Names that may start with anything. -/
  hidden : List String
  /-- Whether names that are not defined stand for their own text. -/
  bareLiterals : Bool

/-- What is known while first sets are found. -/
structure LeadState where
  /-- The names that are being expanded, outermost first. -/
  stack : List String
  /-- The outermost of them that was met again, by its place. -/
  lowestHit : Option Nat
  /-- First sets of names, for either way of walking through lists. -/
  cache : List ((String × Bool) × FirstSet)

def LeadState.start : LeadState := ⟨[], none, []⟩

namespace Lead

/-- A walk: a first set, and what is known after it. -/
abbrev Walk := LeadState → FirstSet × LeadState

/-- A walk that finds a set at once. -/
def Walk.pure (s : FirstSet) : Walk := fun state => (s, state)

def lower : Option Nat → Option Nat → Option Nat
  | none, b => b
  | a, none => a
  | some a, some b => some (min a b)

def ofPattern (source : String) : FirstSet :=
  match Pattern.startsOf? source with
  | some texts => .ofList (texts.map .literal)
  | none => .anything

/-- The pattern of a value: a text, or the text in its field `regex`. -/
def patternText? (value : Rule) : Option String :=
  match value with
  | .text s => some s
  | _ => (value.field? "regex").bind Rule.asText?

mutual

/-- Walks through a rule. `ofName` walks through a named one. With `onlyStart`, a list is left behind
the first item that cannot be empty; otherwise all of its items count. -/
def walk (ofName : String → Walk) (onlyStart : Bool) : Rule → Walk
  | .text name => ofName name
  | .list items => walkList ofName onlyStart .empty items
  | .map [(key, value)] =>
    match Keyword.ofKey? key with
    | none => .pure .anything
    | some .sequence =>
      match value with
      | .list items => walkList ofName onlyStart .empty items
      | _ => .pure .anything
    | some .choice =>
      match value with
      | .list (branch :: branches) => walkBranches ofName onlyStart .empty (branch :: branches)
      | _ => .pure .anything
    | some .repeated | some .ahead => walk ofName onlyStart value
    | some .notAhead | some .eof => .pure .nothing
    | some .optional => fun state =>
      let (s, state) := walk ofName onlyStart value state
      (s.insert .nothing, state)
    | some .literal =>
      match value with
      | .text text => .pure (if text = "" then .anything else .literal text)
      | _ => .pure .anything
    | some .regex =>
      match patternText? value with
      | some source => .pure (ofPattern source)
      | none => .pure .anything
    | some .astNode | some .astProp =>
      match value with
      | .map entries => walkField ofName onlyStart entries
      | _ => .pure .anything
    | some .script | some .indent => .pure .anything
  | .map _ => .pure .anything

/-- Walks through the items of a list, after those before it gave `found`. That the list may be empty
holds only if it holds of the last item. -/
def walkList (ofName : String → Walk) (onlyStart : Bool) (found : FirstSet) : List Rule → Walk
  | [] => .pure (found.insert .nothing)
  | [item] => fun state =>
    let (s, state) := walk ofName onlyStart item state
    ((found.erase .nothing).union s, state)
  | item :: items => fun state =>
    let (s, state) := walk ofName onlyStart item state
    let found := (found.erase .nothing).union s
    if onlyStart && !found.contains .nothing then (found, state)
    else walkList ofName onlyStart found items state

def walkBranches (ofName : String → Walk) (onlyStart : Bool) (found : FirstSet) :
    List Rule → Walk
  | [] => .pure found
  | branch :: branches => fun state =>
    let (s, state) := walk ofName onlyStart branch state
    walkBranches ofName onlyStart (found.union s) branches state

/-- Walks through the field `value` of a map. -/
def walkField (ofName : String → Walk) (onlyStart : Bool) : List (String × Rule) → Walk
  | [] => .pure .anything
  | (key, value) :: entries =>
    if key = "value" then walk ofName onlyStart value else walkField ofName onlyStart entries

end

/-- Walks through a name. Each expansion of a name takes one step of fuel; since a name is not expanded
inside of itself, as many as there are names suffice. -/
def walkName (context : LeadContext) (onlyStart : Bool) : Nat → String → Walk
  | 0, _ => .pure .nothing
  | fuel + 1, name => fun state =>
    if context.hidden.contains name then (.anything, state)
    else
      match state.stack.findIdx? (· = name) with
      | some place => (.nothing, { state with lowestHit := lower state.lowestHit (some place) })
      | none =>
        match context.grammar.lookup name with
        | none =>
          (if name = Keyword.eof.key then .nothing
            else if name = Keyword.indent.key then .anything
            else if context.bareLiterals then .literal name
            else .anything, state)
        | some rule =>
          match state.cache.lookup (name, onlyStart) with
          | some s => (s, state)
          | none =>
            let depth := state.stack.length
            let (s, inner) := walk (walkName context onlyStart fuel) onlyStart rule
              { state with stack := state.stack ++ [name], lowestHit := none }
            let independent := inner.lowestHit.all (fun place => depth ≤ place)
            (s, { stack := state.stack
                  lowestHit := lower state.lowestHit inner.lowestHit
                  cache := if independent then ((name, onlyStart), s) :: inner.cache
                    else inner.cache })

/-- How many names can be expanded inside of each other. -/
def fuelFor (context : LeadContext) : Nat := context.grammar.length + 1

def ofName (context : LeadContext) (name : String) (onlyStart : Bool) : Walk :=
  walkName context onlyStart (fuelFor context) name

def ofRule (context : LeadContext) (rule : Rule) (onlyStart : Bool) : Walk :=
  walk (walkName context onlyStart (fuelFor context)) onlyStart rule

end Lead

end PegGrammar
