/-!
# Real numbers as decimal text

Doubles are written with the fewest significant digits that identify them, and read by rounding
the digits to a double and scaling it once by a power of ten.

* `Real.shortest` gives the digits and the exponent of a positive double: of all decimals that
  lie closer to it than to any other double, one with the fewest digits, and of these the nearest;
* `Real.render` lays the digits out: plain notation for values from 0.00001 up to 10^16, always
  with a point, and scientific notation outside;
* `Real.ofDigits` reads the digits of a whole part and a fraction, and an exponent.
-/

namespace Famicom.Real

/-! ## Writing -/

/-- A positive finite double is `mantissa * 2 ^ exponent`. -/
structure Binary where
  mantissa : Nat
  exponent : Int
  /-- The next double below is half as far away as the next one above. -/
  atPowerOfTwo : Bool

/-- The weight of the sign among the bits of a double. -/
def signBit : Nat := 0x8000000000000000

/-- The weight of the leading bit that normal doubles do not store. -/
def hiddenBit : Nat := 0x10000000000000

/-- Take the bits of a positive finite double apart. -/
def Binary.ofBits (bits : UInt64) : Binary :=
  let fraction : Nat := bits.toNat % hiddenBit
  let biased : Nat := bits.toNat / hiddenBit % 0x800
  if biased = 0 then ⟨fraction, -1074, false⟩
  else ⟨hiddenBit + fraction, (biased : Int) - 1075, fraction = 0 ∧ 1 < biased⟩

/-- The number of decimal digits of a natural number, none for zero. -/
def digitCount (n : Nat) : Nat := if n = 0 then 0 else (Nat.toDigits 10 n).length

/-- The exponent of the leading decimal digit of the positive ratio `num / den`. -/
def leadingExponent (num den : Nat) : Int :=
  if den ≤ num then (digitCount (num / den) : Int) - 1
  else -(digitCount ((den - 1) / num) : Int)

/-- Drop trailing zeros of `digits`, at most `fuel` of them, and raise the exponent for each. -/
def trim : (fuel : Nat) → (digits : Nat) → (exponent : Int) → Nat × Int
  | 0, digits, exponent => (digits, exponent)
  | fuel + 1, digits, exponent =>
    if digits % 10 = 0 then trim fuel (digits / 10) (exponent + 1) else (digits, exponent)

/-- The decimal with `count` digits nearest to `num / den`, if it lies between the bounds
`low / den` and `high / den`, which count as inside when `closed` holds. -/
def nearest? (num den low high : Nat) (closed : Bool) (count : Nat) : Option (Nat × Int) :=
  let exponent := leadingExponent num den - count + 1
  let up := Nat.pow 10 exponent.toNat
  let down := Nat.pow 10 (-exponent).toNat
  -- In units of `10 ^ exponent` the value is `num * down / (den * up)`.
  let unit := den * up
  let below := num * down / unit
  let inside (d : Nat) : Bool :=
    if closed then low * down ≤ d * unit && d * unit ≤ high * down
    else low * down < d * unit && d * unit < high * down
  let belowError := num * down - below * unit
  let aboveError := (below + 1) * unit - num * down
  let preferAbove := aboveError < belowError || (aboveError == belowError && below % 2 == 1)
  let order := if preferAbove then [below + 1, below] else [below, below + 1]
  (order.find? inside).map fun d => trim 17 d exponent

/-- The fewest digits that identify a positive finite double, and the power of ten of the last. -/
def shortest (bits : UInt64) : Nat × Int :=
  let b := Binary.ofBits bits
  -- Four times the value, so that the bounds halfway to the neighbours are whole.
  let scale := b.exponent - 2
  let up := 1 <<< scale.toNat
  let den := 1 <<< (-scale).toNat
  let num := 4 * b.mantissa * up
  let low := (4 * b.mantissa - (if b.atPowerOfTwo then 1 else 2)) * up
  let high := (4 * b.mantissa + 2) * up
  let candidates := (List.range 17).filterMap fun i =>
    nearest? num den low high (b.mantissa % 2 == 0) (i + 1)
  candidates.headD (0, 0)

/-- Lay out digits whose last one stands at the power of ten `exponent`. -/
def layout (digits : Nat) (exponent : Int) : String :=
  let text := (Nat.toDigits 10 digits)
  let count := text.length
  let point : Int := count + exponent
  if 0 ≤ exponent ∧ point ≤ 16 then
    String.ofList (text ++ List.replicate exponent.toNat '0' ++ ['.', '0'])
  else if 0 < point ∧ point ≤ 16 then
    String.ofList (text.take point.toNat ++ ['.'] ++ text.drop point.toNat)
  else if -5 < point ∧ point ≤ 0 then
    String.ofList (['0', '.'] ++ List.replicate (-point).toNat '0' ++ text)
  else
    let fraction := if count = 1 then [] else '.' :: text.drop 1
    String.ofList (text.take 1 ++ fraction ++ ['e']) ++ toString (point - 1)

/-- The text of a finite double. -/
def render (x : Float) : String :=
  let bits := x.toBits
  let sign := if bits.toNat / signBit = 1 then "-" else ""
  let magnitude := UInt64.ofNat (bits.toNat % signBit)
  if magnitude = 0 then sign ++ "0.0"
  else
    let (digits, exponent) := shortest magnitude
    sign ++ layout digits exponent

/-! ## Reading -/

/-- The value of the longest run of leading digits that fits in 64 bits, and how many digits were
left out. -/
def leadingDigits (value : Nat) : List Nat → Nat × Nat
  | [] => (value, 0)
  | d :: rest =>
    if value * 10 + d < UInt64.size then leadingDigits (value * 10 + d) rest
    else (value, rest.length + 1)

/-- The double nearest to a power of ten. -/
def powerOfTen (n : Nat) : Float := Float.ofScientific 1 false n

/-- Scale by a power of ten, in at most `fuel` steps of `10 ^ 308` and a last one; infinite when
the outcome is out of range. -/
def scale : (fuel : Nat) → Float → Int → Float
  | 0, x, _ => x
  | fuel + 1, x, exponent =>
    if exponent.natAbs ≤ 308 then
      if 0 ≤ exponent then x * powerOfTen exponent.natAbs else x / powerOfTen exponent.natAbs
    else if x == 0 then x
    else if 0 ≤ exponent then 1 / 0
    else scale fuel (x / powerOfTen 308) (exponent + 308)

/-- The double read from the decimal digits of a whole part and of a fraction, times a power of
ten.  A fraction may still add digits after some of the whole part had to be left out. -/
def ofDigits (whole fraction : List Nat) (exponent : Int) : Float :=
  let (value, dropped) := leadingDigits 0 whole
  let (value, unused) := leadingDigits value fraction
  scale 4 value.toUInt64.toFloat (exponent + dropped - (fraction.length - unused))

end Famicom.Real
