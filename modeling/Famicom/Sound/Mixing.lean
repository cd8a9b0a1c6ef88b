import Famicom.Word

/-!
# Mixing

The levels of the four channels are combined into one sample, by one of two laws in single
precision.  `MixMemo` remembers samples that were mixed lately, so that runs of equal levels are
mixed once.
-/

namespace Famicom.Sound

/-- The law by which levels are combined. -/
inductive Mixing
  | nonlinear
  | linear
  deriving DecidableEq, Repr

/-- The levels of the four channels. -/
structure Levels where
  pulse1 : UInt8
  pulse2 : UInt8
  triangle : UInt8
  noise : UInt8
  deriving DecidableEq, Repr

namespace Mixing

/-- The amplitude of the two pulse channels together, by the law of the hardware. -/
def pulseAmplitude (pulse1 pulse2 : Float32) : Float32 :=
  let sum := pulse1 + pulse2
  if sum > 0 then 95.88 / (8128.0 / sum + 100.0) else 0

/-- The amplitude of the triangle and the noise channel together, by the law of the hardware. -/
def restAmplitude (triangle noise : Float32) : Float32 :=
  let sum := triangle / 8227.0 + noise / 12241.0
  if sum > 0 then 159.79 / (1.0 / sum + 100.0) else 0

/-- The amplitude of the given levels. -/
def mix (law : Mixing) (levels : Levels) : Float32 :=
  let pulse1 := levels.pulse1.toFloat32
  let pulse2 := levels.pulse2.toFloat32
  let triangle := levels.triangle.toFloat32
  let noise := levels.noise.toFloat32
  match law with
  | nonlinear => pulseAmplitude pulse1 pulse2 + restAmplitude triangle noise
  | linear => 0.00752 * (pulse1 + pulse2) + 0.00851 * triangle + 0.00494 * noise

/-- The sample of silence. -/
def silence : UInt8 := 128

/-- An amplitude as an unsigned sample at or above silence. -/
def quantize (amplitude : Float32) : UInt8 :=
  let sample := 128.0 + (amplitude * 127.0).round
  if sample < 128.0 then silence else if sample > 255.0 then 255 else sample.toUInt8

end Mixing

/-! ## Remembered samples -/

/-- The low four bits of a level, widened. -/
def nibble (level : UInt8) : UInt16 := level.toUInt16 &&& 0x0F

/-- Four levels of four bits each packed into a word. -/
def Levels.key (l : Levels) : UInt16 :=
  nibble l.pulse1 ||| (nibble l.pulse2 <<< 4) ||| (nibble l.triangle <<< 8) |||
    (nibble l.noise <<< 12)

/-- A sample for each of 64 slots, with the key of the levels it was mixed from. -/
structure MixMemo where
  slots : Vector (Option (UInt16 × UInt8)) 64

namespace MixMemo

/-- Nothing is remembered. -/
def empty : MixMemo := ⟨Vector.replicate 64 none⟩

/-- The slot that a key shares with others. -/
def slotOf (key : UInt16) : Fin 64 :=
  ⟨(key ^^^ (key >>> 6) ^^^ (key >>> 12)).toNat % 64, Nat.mod_lt _ (by decide)⟩

/-- The sample of the given levels, from memory or mixed and remembered. -/
def sample (m : MixMemo) (law : Mixing) (levels : Levels) : UInt8 × MixMemo :=
  let key := levels.key
  let slot := slotOf key
  let mixed := fun (_ : Unit) =>
    let sample := Mixing.quantize (law.mix levels)
    (sample, ⟨m.slots.set slot (some (key, sample))⟩)
  match m.slots[slot] with
  | some (remembered, sample) => if remembered = key then (sample, m) else mixed ()
  | none => mixed ()

end MixMemo

end Famicom.Sound
