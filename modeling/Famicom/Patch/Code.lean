import Famicom.Text.Blank
import Famicom.Text.Hex

/-!
# Patch codes

A patch replaces the byte that a program reads at an address, if the byte is as expected.  Patches
are written as codes of six letters, or eight with an expected byte, over an alphabet of sixteen;
the bits of address, value and expectation are scattered over the letters.

The third letter has a spare bit.  `encode` sets it in codes of eight letters; `decode` ignores it.
-/

namespace Famicom.Patch

/-- A patch of one byte of program ROM. -/
structure Code where
  address : UInt16
  value : UInt8
  compare : Option UInt8
  deriving DecidableEq, Repr

namespace Code

/-- The letters, in the order of their values. -/
def alphabet : Vector Char 16 :=
  #v['A', 'P', 'Z', 'L', 'G', 'I', 'T', 'Y', 'E', 'O', 'X', 'U', 'K', 'S', 'V', 'N']

/-- Why a text is no patch code.  Texts are examined byte by byte in UTF-8. -/
inductive Error
  | badLetter (letter : UInt8) (code : String)
  | badLength (length : Nat) (code : String)
  deriving DecidableEq, Repr

/-- The wording of an error; a byte is shown as the character of that number. -/
def Error.message : Error → String
  | badLetter letter code =>
    "invalid patch letter '" ++ String.singleton (Char.ofNat letter.toNat) ++ "' in " ++ code
  | badLength length code => s!"patch code {code} must be 6 or 8 letters, got {length}"

/-! ## Letters -/

/-- A lower-case ASCII letter in upper case; other bytes as they are. -/
def upper (b : UInt8) : UInt8 := if 0x61 ≤ b && b ≤ 0x7A then b - 0x20 else b

/-- The value of a letter in either case. -/
def letterValue? (b : UInt8) : Option UInt8 :=
  (alphabet.toList.findIdx? fun c => c.toNat == (upper b).toNat).map UInt8.ofNat

/-- The letter of a value below sixteen. -/
def letter (n : UInt8) : Char := alphabet.get (lowDigit n)

/-- The values of letters, or the first byte that is none. -/
def letterValues (code : String) : List UInt8 → Except Error (List UInt8)
  | [] => return []
  | b :: rest =>
    match letterValue? b with
    | some n => return n :: (← letterValues code rest)
    | none => throw (.badLetter b code)

/-! ## Decoding -/

/-- The low three bits of a letter. -/
def low3 (n : UInt8) : UInt8 := n &&& 0x07

/-- Bit 3 of a letter, in place. -/
def bit3 (n : UInt8) : UInt8 := n &&& 0x08

/-- The address that the second to sixth letters spell.  Its top bit is always set. -/
def addressOf (n1 n2 n3 n4 n5 : UInt8) : UInt16 :=
  wordOf (bit3 n1 <<< 4 ||| low3 n2 <<< 4 ||| bit3 n3 ||| low3 n4)
    ((0x80 : UInt8) ||| low3 n3 <<< 4 ||| bit3 n4 ||| low3 n5)

/-- The byte that two letters spell, with its bit 3 from a third. -/
def byteOf (low high third : UInt8) : UInt8 :=
  low3 high <<< 4 ||| bit3 low <<< 4 ||| low3 low ||| bit3 third

/-- The patch that six or eight letter values spell. -/
def ofLetters? : List UInt8 → Option Code
  | [n0, n1, n2, n3, n4, n5] => some ⟨addressOf n1 n2 n3 n4 n5, byteOf n0 n1 n5, none⟩
  | [n0, n1, n2, n3, n4, n5, n6, n7] =>
    some ⟨addressOf n1 n2 n3 n4 n5, byteOf n0 n1 n7, some (byteOf n6 n7 n5)⟩
  | _ => none

/-- The patch that a text spells, in either case and with blanks around it. -/
def decode (text : String) : Except Error Code := do
  let code := String.ofList (Blank.trim text.toList)
  let letters ← letterValues code code.toUTF8.data.toList
  match ofLetters? letters with
  | some patch => return patch
  | none => throw (.badLength letters.length code)

/-! ## Encoding -/

/-- The letter that carries the lowest three bits of a byte and its top bit. -/
def lowLetter (b : UInt8) : UInt8 := low3 b ||| bit3 (b >>> 4)

/-- The letter values that spell a patch.  The top bit of the address is not spelled. -/
def letters (c : Code) : List UInt8 :=
  let low := lowByte c.address
  let high := highByte c.address
  let n0 := lowLetter c.value
  let n1 := low3 (c.value >>> 4) ||| bit3 (low >>> 4)
  let n2 := low3 (low >>> 4)
  let n3 := low3 (high >>> 4) ||| bit3 low
  let n4 := low3 low ||| bit3 high
  let n5 := low3 high
  match c.compare with
  | none => [n0, n1, n2, n3, n4, n5 ||| bit3 c.value]
  | some e =>
    [n0, n1, n2 ||| 0x08, n3, n4, n5 ||| bit3 e, lowLetter e,
      low3 (e >>> 4) ||| bit3 c.value]

/-- The text of a patch. -/
def encode (c : Code) : String := String.ofList (c.letters.map letter)

end Code

end Famicom.Patch
