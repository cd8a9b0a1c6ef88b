import Famicom.Proofs.Console.Stepping

/-!
# Which interrupts a step takes

A step takes at most one interrupt, after its instruction: the requested non-maskable one, or else
the one on the interrupt line if the status lets it through.  Taking it saves program counter and
status on the stack, blocks further maskable interrupts and goes on at the vector, for seven cycles.

* `Exec.interrupt_bus` — what an interrupt does to processor and bus.
* `StepOutcome`, `step_outcome` — all the ways a step can go.
* `step_ends`, `step_nmi`, `step_irq`, `step_passes`, `step_jams` — which way it goes when.
-/

namespace Famicom

/-! ## The stack -/

/-- The cell of RAM that a stack pointer names. -/
def Bus.stackCell (sp : UInt8) : Fin 2048 := ⟨0x100 + sp.toNat, by have := sp.toNat_lt; omega⟩

/-- The RAM after an interrupt has saved program counter and status: break is clear in the saved
status, and unused is set. -/
def Bus.pushed (ram : Vector UInt8 2048) (c : Cpu) : Vector UInt8 2048 :=
  ((ram.set (stackCell c.sp) (highByte c.pc)).set (stackCell (c.sp - 1)) (lowByte c.pc)).set
    (stackCell (c.sp - 2)) (c.p.bits &&& 0xEF ||| 0x20)

theorem Cpu.toNat_stackAddress (c : Cpu) : c.stackAddress.toNat = 0x100 + c.sp.toNat :=
  toNat_wordOf c.sp 0x01

/-- The stack lies in the built-in memory, wherever the pointer is. -/
theorem Region.of_stackAddress (c : Cpu) : Region.of c.stackAddress = .ram := by
  refine if_pos (UInt16.lt_iff_toNat_lt.mpr ?_)
  rw [c.toNat_stackAddress]
  have := c.sp.toNat_lt
  change _ < 0x2000
  omega

/-- Page one is not folded: an address of the stack is a cell of its own. -/
theorem Bus.ramCell_stackAddress (c : Cpu) : ramCell c.stackAddress = stackCell c.sp := by
  refine Fin.ext ?_
  change c.stackAddress.toNat % 2048 = 0x100 + c.sp.toNat
  rw [c.toNat_stackAddress]
  have := c.sp.toNat_lt
  omega

/-- A byte stored where the stack pointer points lands in the stack's cell of RAM. -/
theorem Bus.store_stackAddress (c : Cpu) (value : UInt8) (b : Bus) :
    b.store c.stackAddress value = { b with ram := b.ram.set (stackCell c.sp) value } := by
  unfold Bus.store
  simp only [Region.of_stackAddress, ramCell_stackAddress]

/-! ## The vectors -/

/-- The word that the processor reads at an address. -/
def Bus.wordAt (b : Bus) (addr : UInt16) : UInt16 :=
  wordOf (b.fetch addr).1 (b.fetch (addr + 1)).1

/-- A fetch from the cartridge leaves the bus as it is, so a vector can be read twice. -/
theorem Bus.fetch_cartridge {addr : UInt16} (h : Region.of addr = .cartridge) (b : Bus) :
    b.fetch addr = ((b.cartridge.map (·.read addr)).getD 0, b) := by
  unfold Bus.fetch
  rw [h]
  cases b.cartridge with
  | none => rfl
  | some c => rfl

namespace Exec

/-- Pushing a byte puts it into the stack's cell of RAM. -/
theorem push_bus (value : UInt8) (c : Cpu) (b : Bus) :
    ∃ counters, push value (c, b) =
      ((), { c with sp := c.sp - 1 },
        { b with ram := b.ram.set (Bus.stackCell c.sp) value, counters }) := by
  refine ⟨(b.count c.stackAddress Tally.write).counters, ?_⟩
  change ((), _, Bus.store _ _ _) = _
  rw [Bus.store_stackAddress]
  rfl

/-- Reading a word from the cartridge changes nothing but counters. -/
theorem readWord_bus {addr : UInt16} (hlo : Region.of addr = .cartridge)
    (hhi : Region.of (addr + 1) = .cartridge) (c : Cpu) (b : Bus) :
    ∃ counters, readWord addr (c, b) = (b.wordAt addr, c, { b with counters }) := by
  refine ⟨((b.count addr Tally.read).count (addr + 1) Tally.read).counters, ?_⟩
  change (wordOf (Bus.fetch _ _).1 (Bus.fetch _ (Bus.count (Bus.fetch _ _).2 _ _)).1, c,
    (Bus.fetch _ (Bus.count (Bus.fetch _ _).2 _ _)).2) = _
  simp only [Bus.wordAt, Bus.fetch_cartridge hlo, Bus.fetch_cartridge hhi]
  rfl

end Exec

/-! ## Entering an interrupt -/

theorem Bus.tick_zero (b : Bus) : b.tick 0 = b := by
  have hsame : b.cartridge.map (·.ticks 0) = b.cartridge := by
    cases b.cartridge with
    | none => rfl
    | some c => rfl
  rw [Bus.tick, hsame]

/-- The processor after an interrupt whose handler is at `target`. -/
def Cpu.entering (c : Cpu) (target : UInt16) : Cpu :=
  { c with
    sp := c.sp - 3
    p := c.p.put .interruptDisable true
    pc := target
    totalCycles := c.totalCycles + 7 }

namespace Exec

/-- An interrupt first saves program counter and status. -/
theorem save_bus (c : Cpu) (b : Bus) :
    ∃ counters, push c.p.interruptCopy (pushWord c.pc (c, b)).2 =
      ((), { c with sp := c.sp - 3 }, { b with ram := Bus.pushed b.ram c, counters }) := by
  have htwo : c.sp - 1 - 1 = c.sp - 2 := by grind
  have hthree : c.sp - 2 - 1 = c.sp - 3 := by grind
  obtain ⟨k₁, hhigh⟩ := push_bus (highByte c.pc) c b
  obtain ⟨k₂, hlow⟩ := push_bus (lowByte c.pc) { c with sp := c.sp - 1 }
    { b with ram := b.ram.set (Bus.stackCell c.sp) (highByte c.pc), counters := k₁ }
  dsimp only at hlow
  rw [htwo] at hlow
  change ∃ counters, push _ (push _ (push _ (c, b)).2).2 = _
  rw [hhigh, hlow]
  have hstatus := push_bus c.p.interruptCopy { c with sp := c.sp - 2 }
    { b with
      ram := (b.ram.set (Bus.stackCell c.sp) (highByte c.pc)).set (Bus.stackCell (c.sp - 1))
        (lowByte c.pc)
      counters := k₂ }
  dsimp only at hstatus
  rw [hthree] at hstatus
  exact hstatus

/-- Then it goes on where the vector says. -/
theorem interrupt_bus {vector : UInt16} (hlo : Region.of vector = .cartridge)
    (hhi : Region.of (vector + 1) = .cartridge) (c : Cpu) (b : Bus) :
    ∃ counters, interrupt vector (c, b) =
      (7, c.entering (b.wordAt vector), { b with ram := Bus.pushed b.ram c, counters }) := by
  obtain ⟨k, hsave⟩ := save_bus c b
  let blocked : Cpu := { c with sp := c.sp - 3, p := c.p.put .interruptDisable true }
  let saved : Bus := { b with ram := Bus.pushed b.ram c, counters := k }
  have hword : saved.wordAt vector = b.wordAt vector := by
    simp only [saved, Bus.wordAt, Bus.fetch_cartridge hlo, Bus.fetch_cartridge hhi]
  obtain ⟨counters, hread⟩ := readWord_bus hlo hhi blocked saved
  -- what is left to do from the two points where the processor has come so far
  let goOn (target : UInt16) : Exec Bus Nat := do
    jump target
    update (·.spend Timing.interruptCycles)
    return Timing.interruptCycles
  let block : Exec Bus Nat := do
    update (·.put .interruptDisable true)
    goOn (← readWord vector)
  have hsplit : interrupt vector (c, b) =
      block (push c.p.interruptCopy (pushWord c.pc (c, b)).2).2 := rfl
  have hblock : block ({ c with sp := c.sp - 3 }, saved) =
      goOn (readWord vector (blocked, saved)).1 (readWord vector (blocked, saved)).2 := rfl
  refine ⟨counters, ?_⟩
  rw [hsplit, hsave, hblock, hread, hword]
  rfl

/-- A processor that runs takes a non-maskable interrupt, whatever its flags are. -/
theorem nmi_running {c : Cpu} (h : c.halt = none) (b : Bus) :
    nmi (c, b) = interrupt nmiVector (c, b) := by
  change (if c.halt.isSome then _ else _ : Exec Bus Nat) (c, b) = _
  rw [h]
  rfl

/-- A processor that runs takes an interrupt from the line if its flag lets it. -/
theorem irq_running {c : Cpu} (h : c.halt = none) (b : Bus) :
    irq (c, b) = if c.p.test .interruptDisable then (0, c, b) else interrupt irqVector (c, b) := by
  change (if c.halt.isSome || c.p.test .interruptDisable then _ else _ : Exec Bus Nat) (c, b) = _
  rw [h]
  cases c.p.test .interruptDisable with
  | true => rfl
  | false => rfl

end Exec

/-! ## Steps -/

/-- What a console knows of its interrupts: whether a non-maskable one is requested, and how many of
each kind it has taken. -/
structure Interrupts where
  requested : Bool
  nmis : UInt64
  irqs : UInt64
  deriving DecidableEq, Repr

namespace Console

/-- What the console knows of its interrupts. -/
def interrupts (c : Console) : Interrupts := ⟨c.nmiRequested, c.totals.nmis, c.totals.irqs⟩

/-- An interrupt through the given vector, and nothing else, leads from `m` to `d`. -/
structure Entered (vector : UInt16) (m d : Console) : Prop where
  cpu : d.cpu = m.cpu.entering (m.bus.wordAt vector)
  ram : d.bus.ram = Bus.pushed m.bus.ram m.cpu
  apu : d.bus.apu = m.bus.apu
  cartridge : d.bus.cartridge = m.bus.cartridge.map (·.ticks 7)

/-- No interrupt is taken between `m` and `d`. -/
structure Passed (m d : Console) : Prop where
  cpu : d.cpu = m.cpu
  bus : d.bus = m.bus
  interrupts : d.interrupts = m.interrupts

/-- How a step can go. -/
inductive StepOutcome (c : Console) : Except Error Nat × Console → Prop
  | absent (h : c.hasProgram = false) : StepOutcome c (.error .noProgram, c)
  | jammed {halt : Halt} (h : c.cpu.halt = some halt) :
    StepOutcome c (.error (.halted halt), c)
  | jams {halt : Halt} {d : Console} (h : c.afterInstruction.cpu.halt = some halt)
    (hpassed : Passed c.afterInstruction d) : StepOutcome c (.error (.halted halt), d)
  | nmi {d : Console} (hrequested : c.nmiRequested = true)
    (hentered : Entered nmiVector c.afterInstruction d)
    (hinterrupts : d.interrupts = ⟨false, c.totals.nmis + 1, c.totals.irqs⟩) :
    StepOutcome c (.ok (c.instructionCycles + 7), d)
  | irq {d : Console} (hrequested : c.nmiRequested = false)
    (hline : c.afterInstruction.bus.irqLine = true)
    (hopen : c.afterInstruction.cpu.p.test .interruptDisable = false)
    (hentered : Entered irqVector c.afterInstruction d)
    (hinterrupts : d.interrupts = ⟨false, c.totals.nmis, c.totals.irqs + 1⟩) :
    StepOutcome c (.ok (c.instructionCycles + 7), d)
  | none {d : Console} (hrequested : c.nmiRequested = false)
    (hblocked : c.afterInstruction.bus.irqLine = true →
      c.afterInstruction.cpu.p.test .interruptDisable = true)
    (hpassed : Passed c.afterInstruction d) :
    StepOutcome c (.ok c.instructionCycles, d)

/-- A console that takes an interrupt keeps all but processor, memory and access counts. -/
theorem execOn_interrupt (vector : UInt16) (hlo : Region.of vector = .cartridge)
    (hhi : Region.of (vector + 1) = .cartridge) (m : Console) :
    ∃ counters, execOn (Exec.interrupt vector) m =
      (7, { m with
        cpu := m.cpu.entering (m.bus.wordAt vector)
        bus := { m.bus with ram := Bus.pushed m.bus.ram m.cpu, counters } }) := by
  obtain ⟨counters, hrun⟩ := Exec.interrupt_bus hlo hhi m.cpu m.bus
  exact ⟨counters, by rw [execOn, hrun]⟩

/-- A request is served before the line is looked at. -/
theorem takeInterrupts_nmi {m : Console} (hhalt : m.cpu.halt = none)
    (hrequested : m.nmiRequested = true) :
    ∃ counters log, takeInterrupts m =
      (7, { m with
        cpu := m.cpu.entering (m.bus.wordAt nmiVector)
        bus := { m.bus with ram := Bus.pushed m.bus.ram m.cpu, counters }
        nmiRequested := false
        totals := { m.totals with nmis := m.totals.nmis + 1 }
        log }) := by
  obtain ⟨counters, hrun⟩ := execOn_interrupt nmiVector (by decide) (by decide)
    { m with nmiRequested := false }
  have hnmi : execOn Exec.nmi { m with nmiRequested := false } =
      execOn (Exec.interrupt nmiVector) { m with nmiRequested := false } := by
    rw [execOn, Exec.nmi_running hhalt]
    rfl
  rw [takeInterrupts_eq, if_pos hrequested, hnmi, hrun]
  exact ⟨counters, _, rfl⟩

/-- The line is served when nothing is requested and the flag is clear. -/
theorem takeInterrupts_irq {m : Console} (hhalt : m.cpu.halt = none)
    (hrequested : m.nmiRequested = false) (hline : m.bus.irqLine = true)
    (hopen : m.cpu.p.test .interruptDisable = false) :
    ∃ counters log, takeInterrupts m =
      (7, { m with
        cpu := m.cpu.entering (m.bus.wordAt irqVector)
        bus := { m.bus with ram := Bus.pushed m.bus.ram m.cpu, counters }
        totals := { m.totals with irqs := m.totals.irqs + 1 }
        log }) := by
  obtain ⟨counters, hrun⟩ := execOn_interrupt irqVector (by decide) (by decide) m
  have hirq : execOn Exec.irq m = execOn (Exec.interrupt irqVector) m := by
    rw [execOn, Exec.irq_running hhalt, hopen]
    rfl
  rw [takeInterrupts_eq, if_neg (Bool.eq_false_iff.mp hrequested), hline, hirq, hrun]
  exact ⟨counters, _, rfl⟩

/-- Otherwise no time passes at all. -/
theorem takeInterrupts_none {m : Console} (hhalt : m.cpu.halt = none)
    (hrequested : m.nmiRequested = false)
    (hblocked : m.bus.irqLine = true → m.cpu.p.test .interruptDisable = true) :
    takeInterrupts m = (0, m) := by
  rw [takeInterrupts_eq, hrequested]
  cases hline : m.bus.irqLine with
  | false => rfl
  | true =>
    have hirq : execOn Exec.irq m = (0, m) := by
      rw [execOn, Exec.irq_running hhalt, hblocked hline]
      rfl
    rw [hirq]
    rfl

theorem passed_reportHalt (halt : Halt) (c : Console) : Passed c (reportHalt halt c).2 := by
  rw [reportHalt_eq]
  dsimp only
  split
  · exact ⟨rfl, rfl, rfl⟩
  · exact ⟨rfl, rfl, rfl⟩

/-- Every step goes one of these ways. -/
theorem step_outcome (c : Console) : StepOutcome c (step.run c) := by
  -- in the order in which a step looks: program, jam before, jam after, request, line
  cases hprogram : c.hasProgram with
  | false =>
    rw [step_absent hprogram]
    exact .absent hprogram
  | true =>
  cases hhalt : c.cpu.halt with
  | some halt =>
    rw [step_jammed hprogram hhalt]
    exact .jammed hhalt
  | none =>
  rw [step_running hprogram hhalt]
  cases hjam : c.afterInstruction.cpu.halt with
  | some halt => exact .jams hjam (passed_reportHalt halt _)
  | none =>
  cases hrequested : c.nmiRequested with
  | true =>
    obtain ⟨counters, log, htaken⟩ := takeInterrupts_nmi hjam hrequested
    rw [htaken]
    exact .nmi hrequested ⟨rfl, rfl, rfl, rfl⟩ rfl
  | false =>
  by_cases hblocked : c.afterInstruction.bus.irqLine = true →
      c.afterInstruction.cpu.p.test .interruptDisable = true
  case pos =>
    rw [takeInterrupts_none hjam hrequested hblocked]
    exact .none hrequested hblocked ⟨rfl, Bus.tick_zero _, rfl⟩
  case neg =>
    obtain ⟨hline, hopen⟩ := Classical.not_imp.mp hblocked
    have hopen := Bool.eq_false_iff.mpr hopen
    obtain ⟨counters, log, htaken⟩ := takeInterrupts_irq hjam hrequested hline hopen
    rw [htaken]
    refine .irq hrequested hline hopen ⟨rfl, rfl, rfl, rfl⟩ ?_
    exact congrArg (Interrupts.mk · c.totals.nmis (c.totals.irqs + 1)) hrequested

/-- A step fails only without a program or in a jam. -/
theorem step_ends {c : Console} (h : c.hasProgram) (hhalt : c.cpu.halt = none)
    (hruns : c.afterInstruction.cpu.halt = none) : ∃ n d, step.run c = (.ok n, d) := by
  rw [step_running h hhalt, hruns]
  exact ⟨_, _, rfl⟩

/-- An instruction that jams the processor ends the step before any interrupt is taken. -/
theorem step_jams {c : Console} (h : c.hasProgram) (hhalt : c.cpu.halt = none) {halt : Halt}
    (hjam : c.afterInstruction.cpu.halt = some halt) :
    ∃ d, step.run c = (.error (.halted halt), d) ∧ Passed c.afterInstruction d := by
  refine ⟨_, ?_, passed_reportHalt halt c.afterInstruction⟩
  rw [step_running h hhalt, hjam]

section

variable {c d : Console} {n : Nat}

/-- A step with a request pending ends in the handler. -/
theorem step_nmi (h : step.run c = (.ok n, d)) (hrequested : c.nmiRequested = true) :
    n = c.instructionCycles + 7 ∧ Entered nmiVector c.afterInstruction d ∧
      d.interrupts = ⟨false, c.totals.nmis + 1, c.totals.irqs⟩ := by
  cases h ▸ step_outcome c with
  | nmi _ hentered hinterrupts => exact ⟨rfl, hentered, hinterrupts⟩
  | irq hnone | none hnone => exact absurd (hnone.symm.trans hrequested) Bool.false_ne_true

/-- A step with the line low and interrupts allowed ends in the other handler. -/
theorem step_irq (h : step.run c = (.ok n, d)) (hrequested : c.nmiRequested = false)
    (hline : c.afterInstruction.bus.irqLine = true)
    (hopen : c.afterInstruction.cpu.p.test .interruptDisable = false) :
    n = c.instructionCycles + 7 ∧ Entered irqVector c.afterInstruction d ∧
      d.interrupts = ⟨false, c.totals.nmis, c.totals.irqs + 1⟩ := by
  cases h ▸ step_outcome c with
  | nmi hsome => exact absurd (hrequested.symm.trans hsome) Bool.false_ne_true
  | irq _ _ _ hentered hinterrupts => exact ⟨rfl, hentered, hinterrupts⟩
  | none _ hblocked => exact absurd (hopen.symm.trans (hblocked hline)) Bool.false_ne_true

/-- A step with nothing to serve is the instruction. -/
theorem step_passes (h : step.run c = (.ok n, d)) (hrequested : c.nmiRequested = false)
    (hblocked : c.afterInstruction.bus.irqLine = true →
      c.afterInstruction.cpu.p.test .interruptDisable = true) :
    n = c.instructionCycles ∧ Passed c.afterInstruction d := by
  cases h ▸ step_outcome c with
  | nmi hsome => exact absurd (hrequested.symm.trans hsome) Bool.false_ne_true
  | irq _ hline hopen => exact absurd (hopen.symm.trans (hblocked hline)) Bool.false_ne_true
  | none _ _ hpassed => exact ⟨rfl, hpassed⟩

end

end Console

end Famicom
