import PegGrammar.Compile.Error
import PegGrammar.Parser.Basic

/-!
# Tables of rules

A name gets its number before its definition is compiled, so a reference to it from inside of its own
definition finds the number and compiling comes to an end. The body is filled in later; only a table
whose rules all have bodies becomes a program.
-/

namespace PegGrammar

/-- A named rule with its body. -/
structure CompiledRule where
  name : String
  body : Parser

/-- Named rules by number, with the bodies that are finished. -/
structure RuleTable where
  rules : List (String × Option Parser)

namespace RuleTable

def empty : RuleTable := ⟨[]⟩

def id? (t : RuleTable) (name : String) : Option Nat := t.rules.findIdx? (fun (n, _) => n = name)

/-- The number of a name, which gets the next one if it has none. -/
def reserve (t : RuleTable) (name : String) : Nat × RuleTable :=
  match t.id? name with
  | some id => (id, t)
  | none => (t.rules.length, ⟨t.rules ++ [(name, none)]⟩)

def define (t : RuleTable) (id : Nat) (body : Parser) : RuleTable :=
  ⟨t.rules.modify id (fun (name, _) => (name, some body))⟩

def size (t : RuleTable) : Nat := t.rules.length

def isEmpty (t : RuleTable) : Bool := t.rules.isEmpty

/-- The finished rules, or the error for the first that is not. -/
def finish (t : RuleTable) : Except CompileError (List CompiledRule) :=
  t.rules.mapM (fun (name, body) =>
    match body with
    | some body => .ok ⟨name, body⟩
    | none => .error (.shape name .unfinished))

end RuleTable

end PegGrammar
