import PegGrammar.Log.Basic
import PegGrammar.Pattern.Basic
import PegGrammar.Text.Blank

/-!
# Which records are shown

A filter holds directives, each of which sets how much a record must matter to be shown if it comes
from a part of the program whose name starts in a given way. About a record the directive with the
longest such name decides, and of equally long ones the last. Beyond that a filter may have a pattern
that the message must match.

A filter is written as directives divided by commas, with the pattern behind a stroke. A directive is
a level, which then holds for every part, or a name, or both with an equals sign between them. A name
alone shows everything.
-/

namespace PegGrammar

/-- From which level on records are shown; nothing if none are. -/
abbrev LogThreshold := Option LogLevel

namespace LogThreshold

def shows (threshold : LogThreshold) (level : LogLevel) : Bool :=
  match threshold with
  | none => false
  | some least => level.rank ≤ least.rank

def ofName? (name : String) : Option LogThreshold :=
  let capitals := name.toUpper
  if capitals = "OFF" then some none
  else (LogLevel.all.find? (fun level => level.name = capitals)).map some

end LogThreshold

/-- A threshold for the parts of the program whose names start with `target`. -/
structure LogDirective where
  target : String
  threshold : LogThreshold
  deriving DecidableEq, Repr

namespace LogDirective

/-- Whether a directive is about a part of the program. -/
def concerns (d : LogDirective) (target : String) : Bool :=
  d.target.toList.isPrefixOf target.toList

/-- What is said of a directive that is left out. -/
def ignored (written : String) : String :=
  "warning: invalid logging spec '" ++ written ++ "', ignoring it"

/-- Reads a directive; one that cannot be read gives what is said of it. -/
def ofString (written : String) : Except String LogDirective :=
  match written.splitOn "=" with
  | [alone] =>
    match LogThreshold.ofName? alone with
    | some threshold => .ok ⟨"", threshold⟩
    | none => .ok ⟨alone, some .trace⟩
  | [target, level] =>
    let level := Text.trim level
    if level = "" then .ok ⟨target, some .trace⟩
    else
      match LogThreshold.ofName? level with
      | some threshold => .ok ⟨target, threshold⟩
      | none => .error (ignored level)
  | _ => .error (ignored written)

end LogDirective

/-- Which records are shown. -/
structure LogFilter where
  directives : List LogDirective
  /-- What the messages must match. -/
  pattern : Option Pattern.Machine

namespace LogFilter

/-- The filter that shows every record from a level on. -/
def ofThreshold (threshold : LogThreshold) : LogFilter := ⟨[⟨"", threshold⟩], none⟩

/-- The directive that decides about a part of the program. -/
def deciding? (f : LogFilter) (target : String) : Option LogDirective :=
  (f.directives.filter (·.concerns target)).foldl (fun best d =>
    match best with
    | some b => if b.target.length ≤ d.target.length then some d else best
    | none => some d) none

def shows (f : LogFilter) (record : LogRecord) : Bool :=
  match f.deciding? record.target with
  | none => false
  | some d =>
    d.threshold.shows record.level
      && f.pattern.all (fun pattern => (pattern.findFrom? (.start record.message.toList)).isSome)

/-- What is said of a pattern that cannot be read; what is wrong with it is not. -/
def badPattern : String := "warning: invalid regex filter - "

def readPattern (written : String) : Option Pattern.Machine × List String :=
  match Pattern.tree? written with
  | some tree => (some tree.machine, [])
  | none => (none, [badPattern])

/-- Adds what is written to a filter, and gives what is said about the parts that are left out. -/
def refine (f : LogFilter) (written : String) : LogFilter × List String :=
  match written.splitOn "/" with
  | directives :: rest =>
    if 1 < rest.length then (f, [LogDirective.ignored written ++ " (too many '/'s)"])
    else
      let read := ((directives.splitOn ",").filter (· ≠ "")).map LogDirective.ofString
      let added := read.filterMap Except.toOption
      let warnings := read.filterMap (fun
        | .error warning => some warning
        | .ok _ => none)
      let (pattern, complaints) := match rest with
        | [] => (none, [])
        | text :: _ => readPattern text
      (⟨f.directives ++ added, pattern⟩, warnings ++ complaints)
  | [] => (f, [])

end LogFilter

end PegGrammar
