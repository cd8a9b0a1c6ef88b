import Famicom.Json.Basic

/-!
# Taking JSON values apart

Readers for the parts that records are made of.  Each gives `none` when the value has another
shape or does not fit.

An object stands for a record when every one of its keys denotes a text and no field of the record
is given twice; fields the record does not have are ignored.  An array stands for a record too,
with the values of the fields in order.

A tagged record has two fields, a tag and contents whose shape the tag decides.  Contents that
come first have to be set aside until the tag is known, and only some values can be.
-/

namespace Famicom.Json

/-! ## Scalars -/

/-- A whole number below `bound`. -/
def below? (bound : Nat) : Json → Option Nat
  | .number (.natural n) => if n < bound then some n else none
  | _ => none

/-- A byte. -/
def uint8? (j : Json) : Option UInt8 := (below? UInt8.size j).map UInt8.ofNat

/-- A 16-bit word. -/
def uint16? (j : Json) : Option UInt16 := (below? UInt16.size j).map UInt16.ofNat

/-- A 32-bit number. -/
def uint32? (j : Json) : Option UInt32 := (below? UInt32.size j).map UInt32.ofNat

/-- A 64-bit number. -/
def uint64? (j : Json) : Option UInt64 := (below? UInt64.size j).map UInt64.ofNat

/-- A truth value. -/
def bool? : Json → Option Bool
  | .bool b => some b
  | _ => none

/-- A text. -/
def text? : Json → Option String
  | .string s => s
  | _ => none

/-- A real number, which may be written as an integer but has to be finite. -/
def real? : Json → Option Float
  | .number (.natural n) => some n.toUInt64.toFloat
  | .number (.negative n) => some (-n.toUInt64.toFloat)
  | .number (.real x) => if x.isFinite then some x else none
  | _ => none

/-- Null stands for no value. -/
def option? {α : Type} (decode : Json → Option α) : Json → Option (Option α)
  | .null => some none
  | j => (decode j).map some

/-- The name of a case without contents: a text, or an object with the name as its only key and
null as the value. -/
def case? : Json → Option String
  | .string s => s
  | .object [(some s, .null)] => some s
  | _ => none

/-- The name of a case without contents in a value that was set aside: there an empty object does
as well as null. -/
def caseSetAside? : Json → Option String
  | .object [(some s, .object [])] => some s
  | j => case? j

/-- The elements of an array. -/
def items? : Json → Option (List Json)
  | .array items => some items
  | _ => none

/-! ## Records -/

/-- The fields of an object whose keys all denote texts. -/
def textFields? (fields : List (Text × Json)) : Option (List (String × Json)) :=
  fields.mapM fun (k, v) => k.map (·, v)

/-- Every value that the fields give to a name, in order. -/
def valuesOf (fields : List (String × Json)) (name : String) : List Json :=
  (fields.filter (·.1 = name)).map (·.2)

/-- The value given to a name, if any; no answer when it is given twice. -/
def single? (fields : List (String × Json)) (name : String) : Option (Option Json) :=
  match valuesOf fields name with
  | [] => some none
  | [v] => some (some v)
  | _ => none

/-- The values of the named fields, in the order of the names; a field that an object does not
have is `none`.  An array has to have all fields, or, when `short` is set, may lack the last
ones. -/
def record? (names : List String) (short : Bool := false) : Json → Option (List (Option Json))
  | .object fields => do
    let fields ← textFields? fields
    names.mapM (single? fields)
  | .array items =>
    if items.length = names.length || (short && items.length < names.length) then
      some (items.map some ++ List.replicate (names.length - items.length) none)
    else none
  | _ => none

/-! ## Tagged records -/

/-- Whether a value can be set aside and read later: its string literals denote texts, its numbers
are in the range of a double, and it nests arrays and objects at most `depth` deep. -/
def canSetAside : (depth : Nat) → Json → Bool
  | _, .null => true
  | _, .bool _ => true
  | _, .number (.real x) => x.isFinite
  | _, .number _ => true
  | _, .string s => s.isSome
  | 0, .array _ => false
  | 0, .object _ => false
  | depth + 1, .array items => items.all (canSetAside depth)
  | depth + 1, .object fields => fields.all fun (k, v) => k.isSome && canSetAside depth v

/-- A tagged record taken apart. -/
structure Tagged where
  tag : String
  contents : Option Json
  /-- The contents came before the tag. -/
  setAside : Bool

/-- Whether the field `first` is met before the field `second`. -/
def comesBefore (fields : List (String × Json)) (first second : String) : Bool :=
  (fields.find? fun (k, _) => k = first || k = second).any (·.1 = first)

/-- The tag and the contents in the named fields of an object; contents that come first can be at
most `depth` deep.  An array has the tag, as a plain text, and the contents. -/
def tagged? (tagName contentsName : String) (depth : Nat) : Json → Option Tagged
  | .object fields => do
    let fields ← textFields? fields
    let tag ← (← single? fields tagName) >>= case?
    let contents ← single? fields contentsName
    let setAside := comesBefore fields contentsName tagName
    if setAside && !contents.all (canSetAside depth) then none
    return { tag, contents, setAside }
  | .array [tag, contents] => do return { tag := ← tag.text?, contents, setAside := false }
  | _ => none

end Famicom.Json
