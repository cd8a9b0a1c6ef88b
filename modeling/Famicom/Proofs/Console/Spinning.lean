import Famicom.Proofs.Console.Boundaries
import Famicom.Proofs.Console.Interrupts

/-!
# A program that spins

A branch to itself, with maskable interrupts blocked, is the shortest program that never ends.  On a
board without registers nothing that happens in a frame can take the processor away from it: every
step takes the two cycles of the branch, and the events of the frame do not reach the program.

* `Exec.execute_branch` — a branch that is taken.
* `Spins.step`, `Spins.fireFrameEvents` — spinning goes on.
-/

namespace Famicom

/-! ## The board and the branch -/

/-- A board without registers does not count cycles. -/
theorem Cartridge.ticks_of_fixed {c : Cartridge} {b : Board.Fixed} (h : c.board = .fixed b)
    (n : Nat) : c.ticks n = c := by
  have htick : c.tick = c := by
    rw [tick, h]
    exact congrArg (fun board => { c with board }) h.symm
  induction n with
  | zero => rfl
  | succ n ih => rw [ticks, htick, ih]

/-- Neither does it count scanlines. -/
theorem Cartridge.clockScanline_of_fixed {c : Cartridge} {b : Board.Fixed}
    (h : c.board = .fixed b) : c.clockScanline = c := by
  rw [clockScanline, h]
  exact congrArg (fun board => { c with board }) h.symm

/-- A read from the cartridge is counted, and changes nothing else. -/
theorem Bus.read_cartridge {addr : UInt16} (haddr : Region.of addr = .cartridge) {b : Bus}
    {c : Cartridge} (hc : b.cartridge = some c) :
    AddressSpace.read addr b = (c.read addr, b.count addr Tally.read) := by
  change Bus.fetch addr (b.count addr Tally.read) = _
  rw [Bus.fetch_cartridge haddr]
  change ((b.cartridge.map (·.read addr)).getD 0, _) = _
  rw [hc]
  rfl

/-- A branch that is taken reads its displacement and jumps. -/
theorem Exec.execute_branch {flag : Flag} {state : Bool} {c : Cpu} (taken : c.p.test flag = state)
    (b : Bus) :
    execute (.branch flag state) (c, b) =
      let fetched := AddressSpace.read c.pc b
      ((), { c with pc := c.pc + 1 + signExtend fetched.1 }, fetched.2) := by
  change (if c.p.test flag = state then _ else _ : Exec Bus Unit) _ = _
  rw [if_pos taken]
  rfl

namespace Console

/-! ## Spinning -/

/-- The processor is at a branch to itself, on the given cartridge, and no interrupt can come: none
is requested, and the status blocks those on the line. -/
structure Spins (made : Cartridge) (c : Console) : Prop where
  cartridge : c.bus.cartridge = some made
  fixed : ∃ b, made.board = .fixed b
  place : Region.of c.cpu.pc = .cartridge ∧ Region.of (c.cpu.pc + 1) = .cartridge
  branch : made.read c.cpu.pc = 0xD0 ∧ made.read (c.cpu.pc + 1) = 0xFE
  taken : c.cpu.p.test .zero = false
  blocked : c.cpu.p.test .interruptDisable = true
  running : c.cpu.halt = none
  unrequested : c.nmiRequested = false

namespace Spins

variable {made : Cartridge} {c : Console}

/-- The branch comes back to where it was, and changes nothing but counters. -/
theorem exec (h : Spins made c) : ∃ counters,
    Exec.step (c.cpu, c.bus) = (2, c.cpu.spend 2, { c.bus with counters }) := by
  -- the displacement undoes the two bytes of the instruction
  have hback : c.cpu.pc + 1 + 1 + signExtend 0xFE = c.cpu.pc := by
    have htwo : (1 : UInt16) + 1 + signExtend 0xFE = 0 := by decide
    rw [UInt16.add_assoc, UInt16.add_assoc, ← UInt16.add_assoc 1, htwo, UInt16.add_zero]
  have hdecode : Instruction.decode 0xD0 = .branch .zero false := by decide
  let fetched := c.bus.count c.cpu.pc Tally.read
  have hopcode : AddressSpace.read c.cpu.pc c.bus = (0xD0, fetched) := by
    rw [Bus.read_cartridge h.place.1 h.cartridge, h.branch.1]
  have hdisplacement : AddressSpace.read (c.cpu.pc + 1) fetched =
      (0xFE, fetched.count (c.cpu.pc + 1) Tally.read) := by
    rw [Bus.read_cartridge (b := fetched) h.place.2 h.cartridge, h.branch.2]
  have hexecute : Exec.execute (.branch .zero false) ({ c.cpu with pc := c.cpu.pc + 1 }, fetched) =
      ((), c.cpu, fetched.count (c.cpu.pc + 1) Tally.read) := by
    rw [Exec.execute_branch (c := { c.cpu with pc := c.cpu.pc + 1 }) h.taken]
    dsimp only
    rw [hdisplacement, hback]
  refine ⟨(fetched.count (c.cpu.pc + 1) Tally.read).counters, ?_⟩
  rw [Exec.step_of_running h.running, hopcode]
  dsimp only
  rw [hdecode, hexecute]
  rfl

/-- A step takes the two cycles of the branch, and then the processor is at the branch again. -/
theorem step (h : Spins made c) : ∃ d, step.run c = (.ok 2, d) ∧ Spins made d := by
  obtain ⟨counters, hexec⟩ := h.exec
  obtain ⟨b, hfixed⟩ := h.fixed
  have hcycles : c.instructionCycles = 2 := congrArg Prod.fst hexec
  have hcpu : c.afterInstruction.cpu = c.cpu.spend 2 := congrArg (fun r => r.2.1) hexec
  have hcartridge : c.afterInstruction.bus.cartridge = some made := by
    have hticks : c.afterInstruction.bus.cartridge = c.bus.cartridge.map (·.ticks 2) := by
      rw [afterInstruction, execOn, hexec]
      rfl
    rw [hticks, h.cartridge]
    exact congrArg some (Cartridge.ticks_of_fixed hfixed 2)
  have hpresent : c.hasProgram := by
    rw [hasProgram, h.cartridge]
    rfl
  obtain ⟨n, d, hstep⟩ := step_ends hpresent h.running (hcpu ▸ h.running)
  obtain ⟨rfl, hpassed⟩ := step_passes hstep h.unrequested fun _ => hcpu ▸ h.blocked
  rw [hcycles] at hstep
  have hd : d.cpu = c.cpu.spend 2 := hpassed.cpu.trans hcpu
  have hrequest : d.nmiRequested = c.nmiRequested :=
    congrArg Interrupts.requested hpassed.interrupts
  refine ⟨d, hstep, ?_⟩
  -- what the loop rests on is the processor, which has only spent cycles, and the cartridge
  constructor
  case cartridge => rw [hpassed.bus, hcartridge]
  case fixed => exact h.fixed
  case place => exact hd ▸ h.place
  case branch => exact hd ▸ h.branch
  case taken => exact hd ▸ h.taken
  case blocked => exact hd ▸ h.blocked
  case running => exact hd ▸ h.running
  case unrequested => exact hrequest.trans h.unrequested

/-- The place in the frame does not matter to the program. -/
theorem advanceClock (h : Spins made c) (n : Nat) : Spins made (c.advanceClock n) :=
  ⟨h.cartridge, h.fixed, h.place, h.branch, h.taken, h.blocked, h.running, h.unrequested⟩

/-- The events of a frame do not take the processor away from the branch. -/
theorem fireFrameEvents (h : Spins made c) : Spins made c.fireFrameEvents := by
  obtain ⟨b, hfixed⟩ := h.fixed
  rw [fireFrameEvents_eq]
  refine ⟨?_, h.fixed, h.place, h.branch, h.taken, h.blocked, h.running, h.unrequested⟩
  change c.bus.cartridge.map Cartridge.clockScanline^[_] = some made
  rw [h.cartridge, Option.map_some,
    Function.iterate_fixed (Cartridge.clockScanline_of_fixed hfixed)]

end Spins

end Console

end Famicom
