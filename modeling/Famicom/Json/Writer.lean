import Famicom.Json.Basic
import Famicom.Text.Hex

/-!
# Writing JSON text

Values are written without blanks.  In strings the quote, the backslash and control characters are
escaped, the common ones by a letter and the rest by four hexadecimal digits in lower case.
-/

namespace Famicom.Json

namespace Writer

/-- Append a control character as a four-digit escape. -/
def pushControl (out : String) (c : Char) : String :=
  let lower := (Hex.digits 4 c.toNat).map Char.toLower
  out ++ "\\u" ++ String.ofList lower

/-- Append a character of a string, escaped where needed. -/
def pushChar (out : String) (c : Char) : String :=
  if c = '"' then out ++ "\\\""
  else if c = '\\' then out ++ "\\\\"
  else if 0x20 ≤ c.toNat then out.push c
  else if c = '\n' then out ++ "\\n"
  else if c = '\r' then out ++ "\\r"
  else if c = '\t' then out ++ "\\t"
  else if c.toNat = 0x08 then out ++ "\\b"
  else if c.toNat = 0x0C then out ++ "\\f"
  else pushControl out c

/-- Append a string literal.  A literal that denotes no text is written as an unpaired escape. -/
def pushText (out : String) : Text → String
  | some s => (s.toList.foldl pushChar (out.push '"')).push '"'
  | none => out ++ "\"\\ud800\""

/-- The numeral of a number. -/
def numeral : Number → String
  | .natural n => toString n
  | .negative n => "-" ++ toString n
  | .real x => if x.isFinite then Real.render x else if x < 0 then "-1e999" else "1e999"

mutual

/-- Append a value. -/
def push (out : String) : Json → String
  | .null => out ++ "null"
  | .bool true => out ++ "true"
  | .bool false => out ++ "false"
  | .number n => out ++ numeral n
  | .string s => pushText out s
  | .array items => (pushItems (out.push '[') true items).push ']'
  | .object fields => (pushFields (out.push '\x7b') true fields).push '\x7d'

/-- Append the elements of an array, with commas between them. -/
def pushItems (out : String) (first : Bool) : List Json → String
  | [] => out
  | v :: rest => pushItems (push (if first then out else out.push ',') v) false rest

/-- Append the fields of an object, with commas between them. -/
def pushFields (out : String) (first : Bool) : List (Text × Json) → String
  | [] => out
  | (k, v) :: rest =>
    pushFields (push ((pushText (if first then out else out.push ',') k).push ':') v) false rest

end

end Writer

/-- The text of a value. -/
def toText (j : Json) : String := Writer.push "" j

end Famicom.Json
