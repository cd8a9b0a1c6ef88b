import Famicom.Json.Token

/-!
# Reading JSON text

A value is assembled from tokens by a machine with a stack of open arrays and objects.  Nesting is
limited by nothing but the text itself.
-/

namespace Famicom.Json

namespace Reader

/-- An array or object that is still open, with the contents read so far, latest first.  An object
waits for the value of `key`. -/
inductive Frame
  | array (items : List Json)
  | object (fields : List (Text × Json)) (key : Text)

/-- What may come next, inside the given open frames. -/
inductive State
  /-- A value. -/
  | value (frames : List Frame)
  /-- The first element of an array, or its end. -/
  | items (frames : List Frame)
  /-- The first key of an object, or its end. -/
  | fields (frames : List Frame)
  /-- A further key of an object. -/
  | key (frames : List Frame) (fields : List (Text × Json))
  /-- The colon after a key. -/
  | colon (frames : List Frame) (fields : List (Text × Json)) (key : Text)
  /-- A separator or the end of the innermost frame, after a complete value. -/
  | done (frames : List Frame) (value : Json)

/-- The state after the first token of a value. -/
def startValue (frames : List Frame) : Token → Option State
  | .null => some (.done frames .null)
  | .bool b => some (.done frames (.bool b))
  | .number n => some (.done frames (.number n))
  | .string s => some (.done frames (.string s))
  | .leftBracket => some (.items frames)
  | .leftBrace => some (.fields frames)
  | _ => none

/-- The state after one more token. -/
def next : State → Token → Option State
  | .value frames, token => startValue frames token
  | .items frames, .rightBracket => some (.done frames (.array []))
  | .items frames, token => startValue (.array [] :: frames) token
  | .fields frames, .rightBrace => some (.done frames (.object []))
  | .fields frames, .string key => some (.colon frames [] key)
  | .key frames fields, .string key => some (.colon frames fields key)
  | .colon frames fields key, .colon => some (.value (.object fields key :: frames))
  | .done (.array items :: frames) v, .comma => some (.value (.array (v :: items) :: frames))
  | .done (.array items :: frames) v, .rightBracket =>
    some (.done frames (.array (v :: items).reverse))
  | .done (.object fields key :: frames) v, .comma => some (.key frames ((key, v) :: fields))
  | .done (.object fields key :: frames) v, .rightBrace =>
    some (.done frames (.object ((key, v) :: fields).reverse))
  | _, _ => none

/-- Run the machine over tokens; at their end a value must be complete and nothing open. -/
def run : State → List Token → Option Json
  | .done [] v, [] => some v
  | _, [] => none
  | state, token :: rest =>
    match next state token with
    | some state => run state rest
    | none => none

end Reader

/-- The value that a text denotes. -/
def ofText? (text : String) : Option Json := do
  Reader.run (.value []) (← Token.scan text.toList)

end Famicom.Json
