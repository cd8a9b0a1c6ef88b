import Famicom.Digest.Sha1
import Famicom.Text.Base64
import Famicom.Text.Hex

/-!
# Program images

An image is what a cartridge or a sound program is made from: its ROM contents, the board it
expects and how much RAM comes with it.  `Image.cartridge` and `Image.soundProgram` check that the
parts fit together.
-/

namespace Famicom

/-- How the four logical screens map to the picture memory. -/
inductive Mirroring
  | horizontal
  | vertical
  | oneScreenLower
  | oneScreenUpper
  | fourScreen
  deriving DecidableEq, Repr

namespace Mirroring

/-- The name that descriptions and saved states use. -/
def name : Mirroring → String
  | horizontal => "Horizontal"
  | vertical => "Vertical"
  | oneScreenLower => "OneScreenLower"
  | oneScreenUpper => "OneScreenUpper"
  | fourScreen => "FourScreen"

/-- All arrangements. -/
def all : List Mirroring := [horizontal, vertical, oneScreenLower, oneScreenUpper, fourScreen]

/-- The arrangement of a given name. -/
def ofName? (name : String) : Option Mirroring := all.find? (·.name = name)

theorem ofName?_name (m : Mirroring) : ofName? m.name = some m := by
  cases m <;> decide

end Mirroring

/-- Entry points of a standalone sound program and the number of its tracks. -/
structure SoundProgram where
  init : UInt16
  play : UInt16
  tracks : UInt8
  deriving DecidableEq, Repr

/-- The contents and the equipment of a cartridge or of a sound program. -/
structure Image where
  mapper : UInt16
  mirroring : Mirroring
  fourScreen : Bool
  battery : Bool
  prg : Array UInt8
  chr : Array UInt8
  chrIsRam : Bool
  workRamSize : Nat
  loadAddress : UInt16
  sound : Option SoundProgram

namespace Image

/-- Where the program ROM appears to the processor. -/
def romStart : UInt16 := 0x8000

/-- The granule of program ROM. -/
def prgUnit : Nat := 0x2000

/-- The granule of pattern memory. -/
def chrUnit : Nat := 0x0400

/-- The pattern RAM of a cartridge without pattern ROM. -/
def chrRamSize : Nat := 0x2000

/-- The least work RAM of a cartridge. -/
def minWorkRam : Nat := 0x2000

/-- An entry point of a sound program. -/
inductive Entry
  | init
  | play
  deriving DecidableEq, Repr

/-- Why an image cannot be made. -/
inductive Error
  | emptyPrg
  | raggedPrg (size : Nat)
  | raggedChr (size : Nat)
  | emptySound
  | loadTooLow (load : UInt16)
  | soundTooLong (size : Nat) (load : UInt16)
  | entryOutside (entry : Entry) (addr : UInt16)
  | noTracks
  deriving DecidableEq, Repr

/-- The wording of an error. -/
def Error.message : Error → String
  | emptyPrg => "invalid PRG ROM: empty payload"
  | raggedPrg size => s!"PRG ROM size {size} is not a multiple of {prgUnit} bytes"
  | raggedChr size => s!"CHR ROM size {size} is not a multiple of {chrUnit} bytes"
  | emptySound => "invalid sound program: empty payload"
  | loadTooLow load =>
    s!"sound program load address ${Hex.word load} is below the ROM window at " ++
      s!"${Hex.word romStart}"
  | soundTooLong size load =>
    s!"sound program truncated: {size} bytes at ${Hex.word load} overrun the address space"
  | entryOutside entry addr =>
    let name := match entry with
      | .init => "init"
      | .play => "play"
    s!"{name} address ${Hex.word addr} lies outside the loaded program"
  | noTracks => "sound program declares zero tracks"

/-- The image of a cartridge.  Without pattern ROM it gets pattern RAM. -/
def cartridge (mapper : UInt16) (prg chr : Array UInt8) : Except Error Image :=
  if prg.isEmpty then throw .emptyPrg
  else if prg.size % prgUnit ≠ 0 then throw (.raggedPrg prg.size)
  else if chr.size % chrUnit ≠ 0 then throw (.raggedChr chr.size)
  else return {
    mapper
    mirroring := .horizontal
    fourScreen := false
    battery := false
    prg
    chr := if chr.isEmpty then Array.replicate chrRamSize 0 else chr
    chrIsRam := chr.isEmpty
    workRamSize := minWorkRam
    loadAddress := romStart
    sound := none }

/-- The image of a sound program that occupies the addresses from `load` on.  Both entry points
have to lie within it. -/
def soundProgram (data : Array UInt8) (load : UInt16) (sound : SoundProgram) :
    Except Error Image :=
  let inside (addr : UInt16) : Bool :=
    load.toNat ≤ addr.toNat && addr.toNat < load.toNat + data.size
  if data.isEmpty then throw .emptySound
  else if load < romStart then throw (.loadTooLow load)
  else if 0x10000 < load.toNat + data.size then throw (.soundTooLong data.size load)
  else if !inside sound.init then throw (.entryOutside .init sound.init)
  else if !inside sound.play then throw (.entryOutside .play sound.play)
  else if sound.tracks = 0 then throw .noTracks
  else return {
    mapper := 0
    mirroring := .horizontal
    fourScreen := false
    battery := false
    prg := data
    chr := Array.replicate chrRamSize 0
    chrIsRam := true
    workRamSize := minWorkRam
    loadAddress := load
    sound := some sound }

/-- Choose the arrangement of screens. -/
def withMirroring (i : Image) (mirroring : Mirroring) : Image :=
  { i with mirroring, fourScreen := mirroring = .fourScreen }

/-- Say whether a battery keeps the work RAM. -/
def withBattery (i : Image) (battery : Bool) : Image := { i with battery }

/-- Choose the amount of work RAM, at least the least one. -/
def withWorkRam (i : Image) (size : Nat) : Image := { i with workRamSize := max size minWorkRam }

/-- The digest of the program ROM as text.  It tells images apart. -/
def fingerprint (i : Image) : String := Base64.encode (Sha1.digest i.prg)

end Image

end Famicom
