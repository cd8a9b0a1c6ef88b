import Famicom.Cpu.AddressSpace
import Famicom.Cpu.Decode
import Famicom.Cpu.Timing

/-!
# Execution

`Cpu.step` executes one instruction of a processor wired to any address space.  The order of the
accesses is part of an instruction's meaning, since a read may change the device that answers it.

A jammed processor executes nothing and takes no interrupt until it is reset.
-/

namespace Famicom

/-- Where the address of the non-maskable interrupt handler is stored. -/
def nmiVector : UInt16 := 0xFFFA

/-- Where the address of the first instruction is stored. -/
def resetVector : UInt16 := 0xFFFC

/-- Where the address of the maskable and the software interrupt handler is stored. -/
def irqVector : UInt16 := 0xFFFE

/-- A computation of a processor wired to an address space `σ`. -/
abbrev Exec (σ : Type) := StateM (Cpu × σ)

namespace Exec

variable {σ : Type} [AddressSpace σ]

/-! ## Access to memory and the stack -/

/-- The registers. -/
def registers : Exec σ Cpu := fun s => (s.1, s)

/-- Change the registers. -/
def update (f : Cpu → Cpu) : Exec σ Unit := fun (c, m) => ((), (f c, m))

/-- Read a byte. -/
def read (addr : UInt16) : Exec σ UInt8 := fun (c, m) =>
  let (value, m) := AddressSpace.read addr m
  (value, (c, m))

/-- Write a byte. -/
def write (addr : UInt16) (value : UInt8) : Exec σ Unit := fun (c, m) =>
  ((), (c, AddressSpace.write addr value m))

/-- Read a word, low byte first. -/
def readWord (addr : UInt16) : Exec σ UInt16 := do
  let lo ← read addr
  let hi ← read (addr + 1)
  return wordOf lo hi

/-- Continue at another address. -/
def jump (addr : UInt16) : Exec σ Unit := update fun c => { c with pc := addr }

/-- Step the program counter over one byte and return where it stood. -/
def advance : Exec σ UInt16 := fun (c, m) => (c.pc, ({ c with pc := c.pc + 1 }, m))

/-- Fetch the byte at the program counter. -/
def fetch : Exec σ UInt8 := do read (← advance)

/-- Fetch the word at the program counter. -/
def fetchWord : Exec σ UInt16 := do
  let lo ← fetch
  let hi ← fetch
  return wordOf lo hi

/-- Push a byte; the stack grows down and wraps within page 1. -/
def push (value : UInt8) : Exec σ Unit := do
  write (← registers).stackAddress value
  update fun c => { c with sp := c.sp - 1 }

/-- Pull a byte. -/
def pull : Exec σ UInt8 := do
  update fun c => { c with sp := c.sp + 1 }
  read (← registers).stackAddress

/-- Push a word, high byte first. -/
def pushWord (value : UInt16) : Exec σ Unit := do
  push (highByte value)
  push (lowByte value)

/-- Pull a word, low byte first. -/
def pullWord : Exec σ UInt16 := do
  let lo ← pull
  let hi ← pull
  return wordOf lo hi

/-! ## Operands -/

/-- Read a word whose two bytes lie in page zero. -/
def readZeroPageWord (pointer : UInt8) : Exec σ UInt16 := do
  let lo ← read pointer.toUInt16
  let hi ← read (pointer + 1).toUInt16
  return wordOf lo hi

/-- Read a word whose high byte lies in the same page as its low byte. -/
def readWordInPage (pointer : UInt16) : Exec σ UInt16 := do
  let lo ← read pointer
  let hi ← read (wordOf (lowByte pointer + 1) (highByte pointer))
  return wordOf lo hi

/-- Where an operand lies: its address, and the address before a 16-bit index was added. -/
structure Operand where
  base : UInt16
  address : UInt16

/-- An operand that no 16-bit index displaces. -/
def Operand.direct (addr : UInt16) : Operand := ⟨addr, addr⟩

/-- An operand displaced by an index register. -/
def Operand.indexed (base : UInt16) (index : UInt8) : Operand := ⟨base, base + index.toUInt16⟩

/-- Find the operand of an instruction. -/
def locate (mode : Mode) : Exec σ Operand := do
  match mode with
  | .immediate => return .direct (← advance)
  | .zeroPage => return .direct (← fetch).toUInt16
  | .zeroPageX =>
    let pointer ← fetch
    return .direct (pointer + (← registers).x).toUInt16
  | .zeroPageY =>
    let pointer ← fetch
    return .direct (pointer + (← registers).y).toUInt16
  | .absolute => return .direct (← fetchWord)
  | .absoluteX =>
    let base ← fetchWord
    return .indexed base (← registers).x
  | .absoluteY =>
    let base ← fetchWord
    return .indexed base (← registers).y
  | .indirectX =>
    let pointer ← fetch
    return .direct (← readZeroPageWord (pointer + (← registers).x))
  | .indirectY =>
    let base ← readZeroPageWord (← fetch)
    return .indexed base (← registers).y

/-- Fetch the operand byte of an instruction. -/
def operand (mode : Mode) : Exec σ UInt8 := do
  let place ← locate mode
  read place.address

/-! ## Instructions -/

/-- Store a byte masked by one more than the high byte of the unindexed address.  When indexing
crossed a page the masked byte also replaces the high byte of the target. -/
def storeMasked (place : Operand) (value : UInt8) : Exec σ Unit := do
  let masked := value &&& (highByte place.base + 1)
  let target :=
    if highByte place.base = highByte place.address then place.address
    else wordOf (lowByte place.address) masked
  write target masked

/-- Execute a decoded instruction whose opcode has been fetched. -/
def execute : Instruction → Exec σ Unit
  | .read op mode => do
    let value ← operand mode
    update (op.apply value)
  | .store op mode => do
    let place ← locate mode
    write place.address (op.value (← registers))
  | .modify op mode => do
    let place ← locate mode
    let value ← read place.address
    let (out, c) := op.apply value (← registers)
    update fun _ => c
    write place.address out
  | .modifyA op => update fun c =>
    let (out, c) := op.apply c.a c
    { c with a := out }
  | .storeMasked op mode => do
    let place ← locate mode
    let (value, c) := op.apply (← registers)
    update fun _ => c
    storeMasked place value
  | .register op => update op.apply
  | .skip => do let _ ← advance
  | .branch flag state => do
    let displacement ← fetch
    let c ← registers
    if c.p.test flag = state then jump (c.pc + signExtend displacement)
  | .brk => do
    let _ ← advance
    pushWord (← registers).pc
    push (← registers).p.softwareCopy
    update (·.put .interruptDisable true)
    jump (← readWord irqVector)
  | .jsr => do
    let target ← fetchWord
    pushWord ((← registers).pc - 1)
    jump target
  | .rts => do jump ((← pullWord) + 1)
  | .rti => do
    let status ← pull
    update fun c => { c with p := .ofPulled status }
    jump (← pullWord)
  | .jmp => do jump (← fetchWord)
  | .jmpIndirect => do jump (← readWordInPage (← fetchWord))
  | .pha => do push (← registers).a
  | .php => do push (← registers).p.softwareCopy
  | .pla => do
    let value ← pull
    update (·.loadA value)
  | .plp => do
    let status ← pull
    update fun c => { c with p := .ofPulled status }
  | .jam opcode => update fun c =>
    { c with halt := some ⟨opcode, c.pc - 1⟩, pc := c.pc - 1 }

/-- Execute one instruction and return the cycles it took; a jammed processor takes none. -/
def step : Exec σ Nat := do
  if (← registers).halt.isSome then return 0
  let opcode ← fetch
  execute (Instruction.decode opcode)
  update (·.spend (Timing.cycles opcode))
  return Timing.cycles opcode

/-! ## Reset, interrupts and calls from outside -/

/-- Restart from power-on at the reset vector. -/
def reset : Exec σ Unit := do
  update fun _ => .powerOn
  jump (← readWord resetVector)

/-- Save the program counter and the status, and continue at a vector. -/
def interrupt (vector : UInt16) : Exec σ Nat := do
  pushWord (← registers).pc
  push (← registers).p.interruptCopy
  update (·.put .interruptDisable true)
  jump (← readWord vector)
  update (·.spend Timing.interruptCycles)
  return Timing.interruptCycles

/-- Take a non-maskable interrupt and return its cycles. -/
def nmi : Exec σ Nat := do
  if (← registers).halt.isSome then return 0
  interrupt nmiVector

/-- Take a maskable interrupt unless the status blocks it, and return its cycles. -/
def irq : Exec σ Nat := do
  let c ← registers
  if c.halt.isSome || c.p.test .interruptDisable then return 0
  interrupt irqVector

/-- Continue at `target` with a return address on the stack that leads to `returnTo`. -/
def call (target returnTo : UInt16) : Exec σ Unit := do
  pushWord (returnTo - 1)
  jump target

end Exec

end Famicom
