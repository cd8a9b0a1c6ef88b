/-!
# SHA-1

The 160-bit digest that identifies the contents of a program image.
-/

namespace Famicom.Sha1

/-- The five words of the running digest. -/
structure State where
  a : UInt32
  b : UInt32
  c : UInt32
  d : UInt32
  e : UInt32

/-- The digest before any block. -/
def State.start : State := ⟨0x67452301, 0xEFCDAB89, 0x98BADCFE, 0x10325476, 0xC3D2E1F0⟩

/-- Rotate a word left. -/
def rotate (x : UInt32) (n : UInt32) : UInt32 := (x <<< n) ||| (x >>> (32 - n))

/-- The mixing function of a round and its constant. -/
def roundFunction (i : Nat) (b c d : UInt32) : UInt32 :=
  if i < 20 then ((b &&& c) ||| (~~~b &&& d)) + 0x5A827999
  else if i < 40 then (b ^^^ c ^^^ d) + 0x6ED9EBA1
  else if i < 60 then ((b &&& c) ||| (b &&& d) ||| (c &&& d)) + 0x8F1BBCDC
  else (b ^^^ c ^^^ d) + 0xCA62C1D6

/-- One round over the scheduled word `w`. -/
def round (s : State) (i : Nat) (w : UInt32) : State :=
  ⟨rotate s.a 5 + roundFunction i s.b s.c s.d + s.e + w, s.a, rotate s.b 30, s.c, s.d⟩

/-- The sixteen words of a block and the 64 words computed from them. -/
def schedule (words : Array UInt32) : Array UInt32 :=
  (List.range' 16 64).foldl (fun w i =>
    w.push (rotate (w.getD (i - 3) 0 ^^^ w.getD (i - 8) 0 ^^^ w.getD (i - 14) 0 ^^^
      w.getD (i - 16) 0) 1)) words

/-- Take one block of sixteen words into the digest. -/
def absorb (s : State) (words : Array UInt32) : State :=
  let w := schedule words
  let t := (List.range 80).foldl (fun t i => round t i (w.getD i 0)) s
  ⟨s.a + t.a, s.b + t.b, s.c + t.c, s.d + t.d, s.e + t.e⟩

/-- The message followed by a one bit, zeros, and its length in bits, to whole blocks. -/
def pad (message : Array UInt8) : Array UInt8 :=
  let zeros := (119 - message.size % 64) % 64
  let lengthByte (i : Nat) : UInt8 := UInt8.ofNat ((message.size * 8) >>> (8 * (7 - i)))
  (message.push 0x80) ++ Array.replicate zeros 0 ++ (Array.range 8).map lengthByte

/-- The word of four bytes, highest first, at an offset. -/
def wordAt (bytes : Array UInt8) (offset : Nat) : UInt32 :=
  let byte (i : Nat) : UInt32 := (bytes.getD (offset + i) 0).toUInt32
  (byte 0 <<< 24) ||| (byte 1 <<< 16) ||| (byte 2 <<< 8) ||| byte 3

/-- The four bytes of a word, highest first. -/
def bytesOf (w : UInt32) : List UInt8 :=
  [(w >>> 24).toUInt8, (w >>> 16).toUInt8, (w >>> 8).toUInt8, w.toUInt8]

/-- The twenty bytes of the digest of a message. -/
def digest (message : Array UInt8) : List UInt8 :=
  let padded := pad message
  let s := (List.range (padded.size / 64)).foldl (fun s block =>
    absorb s ((Array.range 16).map fun i => wordAt padded (block * 64 + i * 4))) State.start
  [s.a, s.b, s.c, s.d, s.e].flatMap bytesOf

end Famicom.Sha1
