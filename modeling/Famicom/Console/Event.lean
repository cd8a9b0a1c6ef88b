import Famicom.Cpu.Basic
import Famicom.Patch.Ledger
import Famicom.Text.Hex

/-!
# Events

What happens to a console that a person who debugs a program would want to know.  The console keeps
the latest events; `EventLog.push` forgets the oldest when the log is full.
-/

namespace Famicom

/-- Something that happened to a console. -/
inductive Event
  | reset (pc : UInt16)
  | loaded (name : String)
  | unknownMapper (mapper : UInt16)
  | batteryLoaded (size : Nat)
  | halted (halt : Halt)
  | nmi (pc : UInt16)
  | irq (cycle : UInt64) (pc : UInt16)
  | trackStarted (track : UInt8)
  | routineOverran (addr : UInt16) (budget : UInt64) (pc : UInt16)
  | patched (code : Patch.Code)
  | unpatched (code : Patch.Code)
  | allUnpatched (count : Nat)
  | restored (pc : UInt16)
  deriving DecidableEq, Repr

/-- A jam in words. -/
def Halt.describe (h : Halt) : String :=
  s!"CPU halted on opcode ${Hex.byte h.opcode} at PC=${Hex.word h.address}"

/-- An event in words. -/
def Event.describe : Event → String
  | reset pc => s!"CPU reset, PC=${Hex.word pc}"
  | loaded name => s!"Program loaded: {name}"
  | unknownMapper mapper =>
    s!"Mapper {mapper} has no dedicated board, fallback to fixed mapping"
  | batteryLoaded size => s!"Battery RAM loaded ({size} bytes)"
  | halted halt => halt.describe
  | nmi pc => s!"NMI serviced, PC=${Hex.word pc}"
  | irq cycle pc => s!"IRQ serviced at CPU cycle {cycle}, PC=${Hex.word pc}"
  | trackStarted track => s!"Track {track} initialized"
  | routineOverran addr budget pc =>
    s!"Routine ${Hex.word addr} exceeded {budget} cycles at PC=${Hex.word pc}"
  | patched code =>
    s!"Patch {code.encode} applied: ${Hex.word code.address} := ${Hex.byte code.value}"
  | unpatched code => s!"Patch {code.encode} restored"
  | allUnpatched count => s!"Restored {count} patches"
  | restored pc => s!"Snapshot restored, PC=${Hex.word pc}"

/-- The latest events, the newest first. -/
structure EventLog where
  events : List Event := []
  deriving DecidableEq, Repr

namespace EventLog

/-- The number of events that are kept. -/
def capacity : Nat := 512

/-- Add an event. -/
def push (l : EventLog) (e : Event) : EventLog := ⟨(e :: l.events).take capacity⟩

/-- At most `limit` events, the newest first. -/
def recent (l : EventLog) (limit : Nat) : List Event := l.events.take limit

theorem length_push_le (l : EventLog) (e : Event) : (l.push e).events.length ≤ capacity :=
  List.length_take_le capacity _

end EventLog

end Famicom
