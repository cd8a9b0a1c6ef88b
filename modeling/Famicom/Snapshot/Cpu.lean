import Famicom.Cpu.Basic
import Famicom.Json.Decode

/-!
# Saved processors

The registers of the processor as a JSON record.
-/

namespace Famicom.Snapshot

/-- A jam as a JSON record. -/
def haltToJson (h : Halt) : Json :=
  .record [("opcode", .nat h.opcode.toNat), ("pc", .nat h.address.toNat)]

/-- The jam in a JSON record. -/
def haltOfJson? (j : Json) : Option Halt := do
  match ← Json.record? ["opcode", "pc"] false j with
  | [opcode, address] =>
    return { opcode := ← Json.uint8? (← opcode), address := ← Json.uint16? (← address) }
  | _ => none

/-- The names of the registers. -/
def cpuFields : List String := ["a", "x", "y", "p", "sp", "pc", "halt", "total_cycles"]

/-- A processor as a JSON record. -/
def cpuToJson (c : Cpu) : Json :=
  .record [
    ("a", .nat c.a.toNat),
    ("x", .nat c.x.toNat),
    ("y", .nat c.y.toNat),
    ("p", .nat c.p.bits.toNat),
    ("sp", .nat c.sp.toNat),
    ("pc", .nat c.pc.toNat),
    ("halt", .option haltToJson c.halt),
    ("total_cycles", .nat c.totalCycles.toNat)]

/-- The processor in a JSON record.  Without a field `halt` it is running. -/
def cpuOfJson? (j : Json) : Option Cpu := do
  match ← Json.record? cpuFields false j with
  | [a, x, y, p, sp, pc, halt, totalCycles] =>
    return {
      a := ← Json.uint8? (← a)
      x := ← Json.uint8? (← x)
      y := ← Json.uint8? (← y)
      p := ⟨← Json.uint8? (← p)⟩
      sp := ← Json.uint8? (← sp)
      pc := ← Json.uint16? (← pc)
      halt := ← Json.option? haltOfJson? (halt.getD .null)
      totalCycles := ← Json.uint64? (← totalCycles) }
  | _ => none

end Famicom.Snapshot
