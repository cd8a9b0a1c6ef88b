import Famicom.Json.Reader
import Famicom.Json.Writer
import Famicom.Snapshot.Apu
import Famicom.Snapshot.Cartridge
import Famicom.Snapshot.Cpu

/-!
# Snapshots

A snapshot holds the state of a running program: processor, RAM, cartridge and audio unit, and the
fingerprint of the image it belongs to.  Snapshots are kept as JSON text with a version number.
-/

namespace Famicom

/-- The state of a running program. -/
structure Snapshot where
  version : UInt32
  fingerprint : String
  cpu : Cpu
  ram : Array UInt8
  cartridge : Cartridge.State
  apu : Sound.Apu

namespace Snapshot

/-- The version that this library writes and reads. -/
def currentVersion : UInt32 := 1

/-- Why a text is no snapshot. -/
inductive Error
  | malformed
  | wrongVersion (version : UInt32)
  deriving DecidableEq, Repr

/-- The wording of an error. -/
def Error.message : Error → String
  | malformed => "failed to parse snapshot JSON"
  | wrongVersion version =>
    s!"unsupported snapshot version {version} (expected {currentVersion})"

/-- A snapshot as a JSON record. -/
def toJson (s : Snapshot) : Json :=
  .record [
    ("version", .nat s.version.toNat),
    ("rom_sha1", .str s.fingerprint),
    ("cpu", cpuToJson s.cpu),
    ("ram", bytesToJson s.ram),
    ("mapper", cartridgeToJson s.cartridge),
    ("apu", apuToJson s.apu)]

/-- The snapshot in a JSON record, of any version. -/
def ofJson? (j : Json) : Option Snapshot := do
  match ← Json.record? ["version", "rom_sha1", "cpu", "ram", "mapper", "apu"] false j with
  | [version, fingerprint, cpu, ram, cartridge, apu] =>
    return {
      version := ← Json.uint32? (← version)
      fingerprint := ← Json.text? (← fingerprint)
      cpu := ← cpuOfJson? (← cpu)
      ram := ← bytesOfJson? (← ram)
      cartridge := ← cartridgeOfJson? (← cartridge)
      apu := ← apuOfJson? (← apu) }
  | _ => none

/-- A snapshot as text. -/
def toText (s : Snapshot) : String := s.toJson.toText

/-- The snapshot in a text, if it has the current version. -/
def ofText (text : String) : Except Error Snapshot :=
  match Json.ofText? text >>= ofJson? with
  | none => throw .malformed
  | some s => if s.version = currentVersion then return s else throw (.wrongVersion s.version)

end Snapshot

end Famicom
