/-!
# Base64

Bytes as text over an alphabet of 64 characters: three bytes make four characters, and the last
group is padded with equal signs.  Reading is strict: padding has to be present and complete, and
the bits that padding leaves over have to be zero, so that every byte string has one written form.
-/

namespace Famicom.Base64

/-- The character for a number below 64. -/
def symbol (n : Nat) : Char :=
  if n < 26 then Char.ofNat (n + 65)
  else if n < 52 then Char.ofNat (n + 71)
  else if n < 62 then Char.ofNat (n - 4)
  else if n = 62 then '+'
  else '/'

/-- The number that a character stands for. -/
def value? (c : Char) : Option Nat :=
  if 'A' ≤ c ∧ c ≤ 'Z' then some (c.toNat - 65)
  else if 'a' ≤ c ∧ c ≤ 'z' then some (c.toNat - 71)
  else if '0' ≤ c ∧ c ≤ '9' then some (c.toNat + 4)
  else if c = '+' then some 62
  else if c = '/' then some 63
  else none

/-! ## Writing -/

/-- Append the text of bytes to `out`. -/
def encodeOnto (out : String) : List UInt8 → String
  | a :: b :: c :: rest =>
    let n := (a.toNat * 256 + b.toNat) * 256 + c.toNat
    encodeOnto ((((out.push (symbol (n / 262144))).push (symbol (n / 4096 % 64))).push
      (symbol (n / 64 % 64))).push (symbol (n % 64))) rest
  | [a, b] =>
    let n := (a.toNat * 256 + b.toNat) * 4
    (((out.push (symbol (n / 4096))).push (symbol (n / 64 % 64))).push (symbol (n % 64))).push '='
  | [a] =>
    let n := a.toNat * 16
    (((out.push (symbol (n / 64))).push (symbol (n % 64))).push '=').push '='
  | [] => out

/-- The text of bytes. -/
def encode (bytes : List UInt8) : String := encodeOnto "" bytes

/-! ## Reading -/

/-- Read the groups of a text onto `bytes`. -/
def decodeOnto (bytes : Array UInt8) : List Char → Option (Array UInt8)
  | [] => some bytes
  | [p, q, '=', '='] => do
    let n := (← value? p) * 64 + (← value? q)
    if n % 16 = 0 then some (bytes.push (UInt8.ofNat (n / 16))) else none
  | [p, q, r, '='] => do
    let n := ((← value? p) * 64 + (← value? q)) * 64 + (← value? r)
    if n % 4 = 0 then
      some ((bytes.push (UInt8.ofNat (n / 1024))).push (UInt8.ofNat (n / 4)))
    else none
  | p :: q :: r :: s :: rest =>
    match value? p, value? q, value? r, value? s with
    | some p, some q, some r, some s =>
      let n := ((p * 64 + q) * 64 + r) * 64 + s
      decodeOnto (((bytes.push (UInt8.ofNat (n / 65536))).push (UInt8.ofNat (n / 256))).push
        (UInt8.ofNat n)) rest
    | _, _, _, _ => none
  | _ => none

/-- The bytes that a text stands for. -/
def decode? (text : String) : Option (Array UInt8) := decodeOnto #[] text.toList

end Famicom.Base64
