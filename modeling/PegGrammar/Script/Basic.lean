import PegGrammar.Cursor.Basic
import PegGrammar.Token.Basic
import PegGrammar.Json.Value
import PegGrammar.Text.Blank

/-!
# Scripts

A grammar can leave a match to a script. An engine looks a script up when the grammar is compiled and
runs it on the cursor when the rule is tried; whatever the script did to the cursor stays done, and it
is for the one who called it to come back.
-/

namespace PegGrammar

/-- Why a script cannot be compiled or does not match. -/
inductive ScriptError where
  /-- The engine has no scripts at all. -/
  | unsupported
  /-- There is no script of this name. -/
  | unknownScript (name : String)
  /-- There is no script with this number. -/
  | invalidHandle (handle : Nat)
  /-- The script decided not to match. -/
  | rejected
  /-- The script failed. -/
  | failed (reason : String)
  deriving DecidableEq, Repr

def ScriptError.message : ScriptError → String
  | .unsupported => "scripts aren't supported by this engine"
  | .unknownScript name => "no script called " ++ Text.shown name
  | .invalidHandle handle => "invalid script handle " ++ toString handle
  | .rejected => "script didn't match"
  | .failed reason => "script failed: " ++ reason

/-- What a script leaves behind: tokens or an error, and the cursor. -/
abbrev ScriptResult := Except ScriptError Chain × Cursor

abbrev Bindings := List (String × Json.Value)

/-- A script: a function of the cursor and the bindings. -/
abbrev Script := Bindings → Cursor → ScriptResult

/-- What a compiler and a program need of an engine. Both are functions, and that is an assumption: an engine answers
in the same way whenever it is asked the same. What holds of every engine holds of no script that keeps a count of its
own or looks at a clock. -/
structure ScriptEngine where
  /-- The number of the script that a source stands for. -/
  compile : String → Except ScriptError Nat
  /-- Runs the script of a number. -/
  run : Nat → Cursor → ScriptResult

def ScriptEngine.none : ScriptEngine :=
  ⟨fun _ => .error .unsupported, fun handle cursor => (.error (.invalidHandle handle), cursor)⟩

/-- Scripts that were registered by name, numbered from zero, and the bindings that they share. -/
structure RegisteredScripts where
  scripts : List (String × Script)
  bindings : Bindings

namespace RegisteredScripts

def empty : RegisteredScripts := ⟨[], []⟩

def handle? (engine : RegisteredScripts) (name : String) : Option Nat :=
  engine.scripts.findIdx? (fun (n, _) => n = name)

/-- Registers a script, in place of the one that had its name. -/
def register (engine : RegisteredScripts) (name : String) (script : Script) : Nat × RegisteredScripts :=
  match engine.handle? name with
  | some handle => (handle, { engine with scripts := engine.scripts.set handle (name, script) })
  | none =>
    (engine.scripts.length, { engine with scripts := engine.scripts ++ [(name, script)] })

/-- Binds a value to a name, in place of the one that was bound to it. -/
def bind (engine : RegisteredScripts) (name : String) (value : Json.Value) : RegisteredScripts :=
  { engine with
    bindings :=
      if engine.bindings.any (fun (n, _) => n = name) then
        engine.bindings.map (fun (n, v) => if n = name then (n, value) else (n, v))
      else engine.bindings ++ [(name, value)] }

/-- The source of a rule is the name of a script, with blanks around it. -/
def compile (engine : RegisteredScripts) (source : String) : Except ScriptError Nat :=
  let name := Text.trim source
  match engine.handle? name with
  | some handle => .ok handle
  | none => .error (.unknownScript name)

def run (engine : RegisteredScripts) (handle : Nat) (cursor : Cursor) : ScriptResult :=
  match engine.scripts[handle]? with
  | some (_, script) => script engine.bindings cursor
  | none => (.error (.invalidHandle handle), cursor)

def toEngine (engine : RegisteredScripts) : ScriptEngine := ⟨engine.compile, engine.run⟩

def shown (engine : RegisteredScripts) : String :=
  "NativeScripts \x7b scripts: [" ++
    String.intercalate ", " (engine.scripts.map (fun (name, _) => Text.shown name)) ++
    "], bindings: \x7b" ++
    String.intercalate ", "
      (engine.bindings.map (fun (name, value) => Text.shown name ++ ": " ++ value.shown)) ++
    "\x7d \x7d"

end RegisteredScripts

end PegGrammar
