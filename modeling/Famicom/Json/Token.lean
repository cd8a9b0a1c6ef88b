import Famicom.Json.Basic
import Famicom.Text.Hex

/-!
# Tokens of JSON text

`Token.scan` cuts a text into tokens: punctuation, literal names, numbers and strings, with blanks
between them dropped.  It fails on anything else.
-/

namespace Famicom.Json

/-- A token of JSON text. -/
inductive Token
  | leftBrace
  | rightBrace
  | leftBracket
  | rightBracket
  | comma
  | colon
  | null
  | bool (b : Bool)
  | number (n : Number)
  | string (s : Text)

namespace Token

/-! ## Strings -/

/-- A code unit that only makes sense as half of a surrogate pair. -/
def isSurrogate (u : Nat) : Bool := 0xD800 ≤ u && u < 0xE000

/-- The text of a sequence of characters and escaped code units.  A high surrogate joins with a
low one that follows it; a surrogate that finds no partner spoils the text. -/
def joinUnits : List Nat → Option (List Char)
  | [] => some []
  | high :: low :: rest =>
    if isSurrogate high then
      if high < 0xDC00 && (0xDC00 ≤ low && low < 0xE000) then
        (joinUnits rest).map (Char.ofNat (0x10000 + (high - 0xD800) * 0x400 + (low - 0xDC00)) :: ·)
      else none
    else (joinUnits (low :: rest)).map (Char.ofNat high :: ·)
  | [u] => if isSurrogate u then none else some [Char.ofNat u]

/-- The character that a single-letter escape stands for. -/
def escape? : Char → Option Nat
  | '"' => some 0x22
  | '\\' => some 0x5C
  | '/' => some 0x2F
  | 'b' => some 0x08
  | 'f' => some 0x0C
  | 'n' => some 0x0A
  | 'r' => some 0x0D
  | 't' => some 0x09
  | _ => none

/-- The code unit of a four-digit escape. -/
def unit? (a b c d : Char) : Option Nat := do
  return (((← Hex.value? a) * 16 + (← Hex.value? b)) * 16 + (← Hex.value? c)) * 16
    + (← Hex.value? d)

/-- Scan a string whose opening quote has been read: the units of the string, latest first in
`units`, up to the closing quote, and what follows it. -/
def scanString : List Char → List Nat → Option (List Nat × List Char)
  | '"' :: rest, units => some (units.reverse, rest)
  | '\\' :: 'u' :: a :: b :: c :: d :: rest, units =>
    match unit? a b c d with
    | some u => scanString rest (u :: units)
    | none => none
  | '\\' :: e :: rest, units =>
    match escape? e with
    | some u => scanString rest (u :: units)
    | none => none
  | c :: rest, units => if c.toNat < 0x20 then none else scanString rest (c.toNat :: units)
  | [], _ => none

/-! ## Numbers -/

/-- The value of a decimal digit. -/
def digitValue (c : Char) : Nat := c.toNat - 48

/-- The value of a row of decimal digits. -/
def digitsValue (cs : List Char) : Nat := cs.foldl (fun n c => n * 10 + digitValue c) 0

/-- Digits at the front of a text and what follows them; there must be at least one. -/
def scanDigits (cs : List Char) : Option (List Char × List Char) :=
  let (digits, rest) := cs.span Char.isDigit
  if digits.isEmpty then none else some (digits, rest)

/-- The fraction of a number, if a point follows. -/
def scanFraction : List Char → Option (Option (List Char) × List Char)
  | '.' :: cs => (scanDigits cs).map fun (digits, rest) => (some digits, rest)
  | cs => some (none, cs)

/-- The digits of an exponent after its optional sign. -/
def scanSigned : List Char → Option (Int × List Char)
  | '+' :: cs => (scanDigits cs).map fun (digits, rest) => ((digitsValue digits : Int), rest)
  | '-' :: cs => (scanDigits cs).map fun (digits, rest) => (-(digitsValue digits : Int), rest)
  | cs => (scanDigits cs).map fun (digits, rest) => ((digitsValue digits : Int), rest)

/-- The exponent of a number, if an exponent mark follows. -/
def scanExponent : List Char → Option (Option Int × List Char)
  | 'e' :: cs | 'E' :: cs => (scanSigned cs).map fun (e, rest) => (some e, rest)
  | cs => some (none, cs)

/-- The number written by the given digits. -/
def numberOf (minus : Bool) (whole : List Char) (fraction : Option (List Char))
    (exponent : Option Int) : Number :=
  let n := digitsValue whole
  let real :=
    let places := fraction.getD []
    let x := Real.ofDigits (whole.map digitValue) (places.map digitValue) (exponent.getD 0)
    Number.real (if minus then -x else x)
  if fraction.isSome || exponent.isSome then real
  else if minus then
    if 0 < n && n ≤ 0x8000000000000000 then .negative n else real
  else if n < UInt64.size then .natural n else real

/-- Scan a number: an optional minus, a whole part without leading zeros, and optional fraction
and exponent. -/
def scanNumber (cs : List Char) : Option (Number × List Char) := do
  let (minus, cs) := match cs with
    | '-' :: rest => (true, rest)
    | _ => (false, cs)
  let (whole, cs) ← scanDigits cs
  if whole.head? = some '0' && 1 < whole.length then none
  let (fraction, cs) ← scanFraction cs
  let (exponent, cs) ← scanExponent cs
  return (numberOf minus whole fraction exponent, cs)

/-! ## Tokens -/

/-- The blanks that may stand between tokens. -/
def isBlank (c : Char) : Bool := c = ' ' || c = '\n' || c = '\t' || c = '\r'

/-- Scan the token at the front of a text that does not start with a blank. -/
def scanOne : List Char → Option (Token × List Char)
  | '\x7b' :: rest => some (.leftBrace, rest)
  | '\x7d' :: rest => some (.rightBrace, rest)
  | '[' :: rest => some (.leftBracket, rest)
  | ']' :: rest => some (.rightBracket, rest)
  | ',' :: rest => some (.comma, rest)
  | ':' :: rest => some (.colon, rest)
  | '"' :: rest =>
    (scanString rest []).map fun (units, rest) =>
      (.string ((joinUnits units).map String.ofList), rest)
  | 'n' :: 'u' :: 'l' :: 'l' :: rest => some (.null, rest)
  | 't' :: 'r' :: 'u' :: 'e' :: rest => some (.bool true, rest)
  | 'f' :: 'a' :: 'l' :: 's' :: 'e' :: rest => some (.bool false, rest)
  | cs => (scanNumber cs).map fun (n, rest) => (.number n, rest)

/-- Scan a text, with at most `fuel` tokens and blanks; `tokens` holds those already found, latest
first. -/
def scanAll : (fuel : Nat) → List Char → List Token → Option (List Token)
  | _, [], tokens => some tokens.reverse
  | 0, _, _ => none
  | fuel + 1, c :: rest, tokens =>
    if isBlank c then scanAll fuel rest tokens
    else match scanOne (c :: rest) with
      | some (token, rest) => scanAll fuel rest (token :: tokens)
      | none => none

/-- The tokens of a text.  Every token and every blank takes at least one character. -/
def scan (text : List Char) : Option (List Token) := scanAll text.length text []

end Token

end Famicom.Json
