import PegGrammar.Json.Lexeme
import PegGrammar.Rule.Basic

/-!
# Rules from JSON texts

The reader goes through the lexemes once, with a stack of the lists and maps that are open. What may
come next depends only on a mode, so the first lexeme that does not fit is where the text is refused.
Scalars load as texts; null is refused; a key that a map has already is refused once the value of its
second entry was read. At most 127 lists and maps may be open at a time.
-/

namespace PegGrammar.Json

/-- A list or map that is being read. -/
inductive Frame where
  /-- The items so far, last first. -/
  | list (items : List Rule)
  /-- The entries so far and the key whose value comes next. -/
  | map (entries : List (String × Rule)) (key : String)

/-- What the reader expects next. -/
inductive Expected where
  /-- A value. -/
  | value
  /-- A value, or the end of a list that was just opened. -/
  | itemOrEnd
  /-- A comma, or the end of the innermost list or map. -/
  | commaOrEnd
  /-- A key, or the end of a map that was just opened. -/
  | keyOrEnd
  /-- A key. -/
  | key
  /-- The colon behind a key. -/
  | colon
  /-- The end of the text, behind a whole value. -/
  | end (value : Rule)

/-- How many lists and maps may be open at a time. -/
def maxOpen : Nat := 127

/-- Hands a finished value to the innermost open list or map. -/
def finish (value : Rule) : List Frame → Except Error (List Frame × Expected)
  | [] => .ok ([], .end value)
  | .list items :: frames => .ok (.list (value :: items) :: frames, .commaOrEnd)
  | .map entries key :: frames =>
    if (entries.lookup key).isSome then .error (.duplicateKey key)
    else .ok (.map (Rule.insertEntry key value entries) key :: frames, .commaOrEnd)

/-- Opens a list or map, unless too many are open. -/
def push (frame : Frame) (expected : Expected) (frames : List Frame) :
    Except Error (List Frame × Expected) :=
  if frames.length < maxOpen then .ok (frame :: frames, expected) else .error .malformed

def value (frames : List Frame) : Lexeme → Except Error (List Frame × Expected)
  | .scalar text | .string text => finish (.text text) frames
  | .null => .error .null
  | .openList => push (.list []) .itemOrEnd frames
  | .openMap => push (.map [] "") .keyOrEnd frames
  | .badString reason | .badScalar reason => .error reason
  | _ => .error .malformed

def keyIn (entries : List (String × Rule)) (frames : List Frame) :
    Lexeme → Except Error (List Frame × Expected)
  | .string key => .ok (.map entries key :: frames, .colon)
  | .badString reason => .error reason
  | _ => .error .malformed

def step (frames : List Frame) (expected : Expected) (lexeme : Lexeme) :
    Except Error (List Frame × Expected) :=
  match expected, frames, lexeme with
  | .value, frames, lexeme => value frames lexeme
  | .itemOrEnd, .list _ :: frames, .closeList => finish (.list []) frames
  | .itemOrEnd, frames, lexeme => value frames lexeme
  | .commaOrEnd, .list items :: frames, .comma => .ok (.list items :: frames, .value)
  | .commaOrEnd, .list items :: frames, .closeList => finish (.list items.reverse) frames
  | .commaOrEnd, .map entries key :: frames, .comma => .ok (.map entries key :: frames, .key)
  | .commaOrEnd, .map entries _ :: frames, .closeMap => finish (.map entries) frames
  | .keyOrEnd, .map _ _ :: frames, .closeMap => finish (.map []) frames
  | .keyOrEnd, .map entries _ :: frames, lexeme => keyIn entries frames lexeme
  | .key, .map entries _ :: frames, lexeme => keyIn entries frames lexeme
  | .colon, frames, .colon => .ok (frames, .value)
  | _, _, _ => .error .malformed

def readAll (frames : List Frame) (expected : Expected) : List Lexeme → Except Error Rule
  | [] =>
    match expected with
    | .end value => .ok value
    | _ => .error .ended
  | lexeme :: lexemes =>
    match step frames expected lexeme with
    | .ok (frames, expected) => readAll frames expected lexemes
    | .error reason => .error reason

end PegGrammar.Json

namespace PegGrammar.Rule

def ofJson? (text : String) : Except Json.Error Rule :=
  Json.readAll [] .value (Json.lexemes text.toList)

end PegGrammar.Rule
