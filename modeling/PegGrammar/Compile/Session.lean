import PegGrammar.Compile.RuleTable
import PegGrammar.Config.Basic
import PegGrammar.Lead.Analysis
import PegGrammar.Log.Basic
import PegGrammar.Rule.Fingerprint

/-!
# Compiling rules

A session compiles definitions one after the other into one table of rules. A definition is walked
through once; a text in it is looked up, in this order, among the replaced names, the rules of the
grammar, the built-ins, and, where that is allowed, taken as a literal. A rule with a name is compiled
where it is first met and referred to by number. A rule whose name is empty has no place in the table
and is put in place of each reference.

What a session did stays done when it meets an error, so it can go on with another definition.
-/

namespace PegGrammar

/-- What a compiler is given. -/
structure Compiler where
  /-- The named rules. -/
  grammar : List (String × Rule)
  fingerprint : Fingerprint
  scripts : ScriptEngine
  config : Config
  /-- Names whose references stand for given parsers. -/
  overrides : List (String × Parser)

/-- The compiler of a grammar, which must be a map. -/
def Compiler.ofRule (grammar : Rule) (scripts : ScriptEngine) (config : Config)
    (overrides : List (String × Parser)) : Except CompileError Compiler :=
  match grammar with
  | .map rules => .ok ⟨rules, .ofRule grammar, scripts, config, overrides⟩
  | _ => .error .notAGrammar

/-- What a session knows. -/
structure Session where
  table : RuleTable
  leads : LeadState
  /-- The literals that alternatives start with. -/
  literals : Registry String
  /-- The names that are being compiled, innermost first. -/
  context : List String
  /-- What was recorded, last first. -/
  log : List LogRecord

namespace Session

def start : Session := ⟨.empty, .start, .empty 0, [], []⟩

/-- The innermost name that is being compiled. -/
def currentRule (s : Session) : String := s.context.headD ""

def record (s : Session) (level : LogLevel) (message : String) : Session :=
  { s with log := ⟨level, LogRecord.compiler, message⟩ :: s.log }

end Session

/-- A step of a session: it changes what the session knows, whether or not it succeeds. -/
abbrev Compiling (α : Type) := ExceptT CompileError (StateM Session) α

namespace Compiling

def fail {α : Type} (error : String → CompileError) : Compiling α := do
  throw (error (← get).currentRule)

def malformed {α : Type} (reason : ShapeError) : Compiling α := fail (fun rule => .shape rule reason)

def note (detail : String) : Compiling Unit :=
  modify (fun s => s.record .trace ("`" ++ s.currentRule ++ "`: " ++ detail))

/-- The parser of a literal, which must not be empty. -/
def literal (text : String) : Compiling Parser :=
  if text = "" then malformed .emptyLiteral else pure (.literal text)

/-- The numbers of the literals that an alternative starts with, if it can be ruled out by them. -/
def branchLiterals (compiler : Compiler) (rule : Rule) : Compiling (Option BitSet) := do
  if compiler.config.pruneAlternatives then
    let s ← get
    let context : LeadContext :=
      ⟨compiler.grammar, compiler.overrides.map Prod.fst, compiler.config.bareLiterals⟩
    let (first, leads) := Lead.ofRule context rule true s.leads
    set { s with leads }
    if first.isPrunable then
      let mut set := BitSet.empty s.literals.identity
      let mut literals := s.literals
      for text in first.literals do
        let (id, larger) := literals.getOrAdd text
        literals := larger
        set := set.addId id
      modify (fun s => { s with literals })
      pure (some set)
    else pure none
  else pure none

/-- Checks the fields of an annotation: a map with a `value`, a text in a required field, and no
fields beyond those and the optional ones. -/
def checkFields (keyword : Keyword) (value : Rule) (required : String) (optional : List String) :
    Compiling Unit := do
  match value with
  | .map entries =>
    if (entries.lookup "value").isNone then malformed (.annotationWithoutValue keyword)
    else if ((entries.lookup required).bind Rule.asText?).isNone then
      malformed (.annotationWithoutField keyword required)
    else
      match entries.find? (fun (key, _) => key ∉ "value" :: required :: optional) with
      | some (key, _) => malformed (.unknownField keyword key)
      | none => pure ()
  | _ => malformed (.annotationWithoutMap keyword)

/-- Checks the fields of `$ast-node`. -/
def checkNode (value : Rule) : Compiling Unit := do
  checkFields .astNode value "type" ["properties"]
  match value.field? "properties" with
  | none | some (.map _) => pure ()
  | some _ => malformed .propertiesWithoutMap

/-- Checks one flag of `$ast-prop`. -/
def checkFlag (value : Rule) (flag : String) : Compiling Unit :=
  match value.field? flag with
  | none | some (.text "true") | some (.text "false") => pure ()
  | some _ => malformed (.flagWithoutTruth flag)

/-- Checks the fields of `$ast-prop`. -/
def checkProperty (value : Rule) : Compiling Unit := do
  checkFields .astProp value "name" ["as-list", "as-literal"]
  checkFlag value "as-list"
  checkFlag value "as-literal"

/-- The parser of a text: of a replaced name, of a rule by `ofRule`, of a built-in, or of a literal. -/
def reference (compiler : Compiler) (ofRule : Rule → String → Compiling Parser) (text : String) :
    Compiling Parser := do
  match compiler.overrides.lookup text with
  | some parser =>
    note ("`" ++ text ++ "` is overridden")
    pure parser
  | none =>
    match compiler.grammar.lookup text with
    | some rule => ofRule rule text
    | none =>
      if text = Keyword.eof.key then pure .eof
      else if text = Keyword.indent.key then pure .indent
      else if compiler.config.bareLiterals then
        note ("treating `" ++ text ++ "` as a literal")
        literal text
      else fail (fun rule => .unknownRule rule text)

mutual

/-- The parser of a definition. `ofRule` compiles the rules that it names. -/
def body (compiler : Compiler) (ofRule : Rule → String → Compiling Parser) : Rule → Compiling Parser
  | .text text => reference compiler ofRule text
  | .list items => do pure (.sequence (← bodies compiler ofRule items))
  | .map [(key, value)] =>
    match Keyword.ofKey? key with
    | none =>
      if Keyword.isReserved key then fail (fun rule => .unknownCombinator rule key)
      else malformed (.mapWithKey key)
    | some keyword => do
      note ("compiling " ++ keyword.key)
      match keyword with
      | .sequence =>
        match value with
        | .list items => do pure (.sequence (← bodies compiler ofRule items))
        | _ => malformed .sequenceWithoutList
      | .choice =>
        match value with
        | .list (branch :: more) => do
          pure (.choice (← branches compiler ofRule (branch :: more)))
        | _ => malformed .choiceWithoutBranches
      | .repeated => do pure (.repeated (← body compiler ofRule value))
      | .ahead => do pure (.ahead (← body compiler ofRule value))
      | .notAhead => do pure (.notAhead (← body compiler ofRule value))
      | .optional => do pure (.optional (← body compiler ofRule value))
      | .literal =>
        match value with
        | .text text => literal text
        | _ => malformed .literalWithoutText
      | .regex =>
        match Lead.patternText? value with
        | none => malformed .regexWithoutPattern
        | some source =>
          match Parser.ofPattern? source with
          | some parser => pure parser
          | none => fail (fun rule => .regex rule source)
      | .eof => pure .eof
      | .indent => pure .indent
      | .script =>
        match value with
        | .text source =>
          match compiler.scripts.compile source with
          | .ok handle => pure (.script source handle)
          | .error reason => fail (fun rule => .script rule source reason)
        | _ => malformed .scriptWithoutSource
      | .astNode => do
        checkNode value
        match value with
        | .map entries => annotated compiler ofRule .astNode entries
        | _ => malformed (.annotationWithoutMap .astNode)
      | .astProp => do
        checkProperty value
        match value with
        | .map entries => annotated compiler ofRule .astProp entries
        | _ => malformed (.annotationWithoutMap .astProp)
  | .map entries => malformed (.mapWithKeys (entries.map Prod.fst))

/-- The parsers of definitions, in their order. -/
def bodies (compiler : Compiler) (ofRule : Rule → String → Compiling Parser) :
    List Rule → Compiling (List Parser)
  | [] => pure []
  | rule :: rules => do
    let parser ← body compiler ofRule rule
    let parsers ← bodies compiler ofRule rules
    pure (parser :: parsers)

/-- The parsers of alternatives, in their order, each with the literals that it starts with. -/
def branches (compiler : Compiler) (ofRule : Rule → String → Compiling Parser) :
    List Rule → Compiling (List (Option BitSet × Parser))
  | [] => pure []
  | rule :: rules => do
    let parser ← body compiler ofRule rule
    let first ← branchLiterals compiler rule
    let parsers ← branches compiler ofRule rules
    pure ((first, parser) :: parsers)

def annotated (compiler : Compiler) (ofRule : Rule → String → Compiling Parser) (keyword : Keyword) :
    List (String × Rule) → Compiling Parser
  | [] => malformed (.annotationWithoutValue keyword)
  | (key, value) :: entries =>
    if key = "value" then body compiler ofRule value
    else annotated compiler ofRule keyword entries

end

/-- The number of a named rule, which is compiled by `compile` if the table does not have it. -/
def named (name : String) (compile : Compiling Parser) : Compiling Nat := do
  match (← get).table.id? name with
  | some id => pure id
  | none =>
    let (id, table) := (← get).table.reserve name
    modify (fun s => { s with table, context := name :: s.context })
    let outcome ← tryCatch (Except.ok <$> compile) (fun error => pure (.error error))
    modify (fun s => { s with context := s.context.tail })
    match outcome with
    | .error error => throw error
    | .ok parser =>
      modify (fun s => { s with table := s.table.define id parser })
      modify (fun s => s.record .debug ("compiled rule `" ++ name ++ "`"))
      pure id

/-- The parser of a definition under a name. Each rule that is entered takes one step of fuel. -/
def rule (compiler : Compiler) : Nat → Rule → String → Compiling Parser
  | 0, _, _ => fail .endlessExpansion
  | fuel + 1, definition, name =>
    let compile := body compiler (rule compiler fuel) definition
    if name = "" then compile else do pure (.rule (← named name compile))

/-- How many rules can be entered inside of each other: every named rule once, and the rule without a
name once inside of each and once in front. -/
def fuelFor (compiler : Compiler) : Nat := 2 * compiler.grammar.length + 3

end Compiling

namespace Session

/-- Compiles a definition under a name; the empty name stands for none. -/
def compileRule (compiler : Compiler) (definition : Rule) (name : String) (s : Session) :
    Except CompileError Parser × Session :=
  (Compiling.rule compiler (Compiling.fuelFor compiler) definition name).run.run s

end Session

end PegGrammar
