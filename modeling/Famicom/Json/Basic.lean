import Famicom.Text.Real

/-!
# JSON values

`Json` is the data model of the JSON texts that the library reads and writes.  Two things that a
plain data model would lose are kept, because readers depend on them:

* the kind of a number — a numeral without point and exponent is an integer, whole or negative,
  and any other is a real number, so `1` and `1.0` differ;
* the fields of an object in the order written, with all repetitions.

A string literal may contain half of a surrogate pair as an escape.  Such a literal denotes no
text; it is well formed, but only a reader that ignores it can pass over it.
-/

namespace Famicom

/-- A JSON number by the kind of its numeral. -/
inductive Json.Number
  /-- A whole number below 2^64. -/
  | natural (n : Nat)
  /-- The negative of a positive whole number up to 2^63. -/
  | negative (n : Nat)
  /-- A numeral with a point or an exponent, minus zero, or an integer out of range.  Infinite
  when too large for a double. -/
  | real (x : Float)

/-- The text of a string literal; `none` when an escape in it is half of a surrogate pair. -/
abbrev Json.Text := Option String

/-- A JSON value. -/
inductive Json
  | null
  | bool (b : Bool)
  | number (n : Json.Number)
  | string (s : Json.Text)
  | array (items : List Json)
  | object (fields : List (Json.Text × Json))

namespace Json

instance : Inhabited Json := ⟨.null⟩

/-- A string. -/
def str (s : String) : Json := .string (some s)

/-- A whole number. -/
def nat (n : Nat) : Json := .number (.natural n)

/-- An object with the given fields. -/
def record (fields : List (String × Json)) : Json :=
  .object (fields.map fun (k, v) => (some k, v))

/-- A real number; values that are not finite are written as null. -/
def real (x : Float) : Json := if x.isFinite then .number (.real x) else .null

/-- Null when there is no value. -/
def option {α : Type} (encode : α → Json) : Option α → Json
  | none => .null
  | some a => encode a

end Json

end Famicom
