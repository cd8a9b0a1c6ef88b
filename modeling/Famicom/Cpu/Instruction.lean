import Famicom.Cpu.Alu

/-!
# The instruction set

Instructions are grouped by what they do with memory: they consume an operand byte (`ReadOp`),
store a register (`StoreOp`), replace a byte in memory or in A (`ModifyOp`), store a register
masked by the high byte of the target (`MaskedStoreOp`), or touch registers only (`RegisterOp`).
The remaining constructors of `Instruction` are those that move the program counter or the stack.
-/

namespace Famicom

/-- How an instruction finds its operand in memory. -/
inductive Mode
  | immediate
  | zeroPage
  | zeroPageX
  | zeroPageY
  | absolute
  | absoluteX
  | absoluteY
  | indirectX
  | indirectY
  deriving DecidableEq, Repr

/-- Operations that consume one operand byte; `ignore` throws it away. -/
inductive ReadOp
  | lda | ldx | ldy
  | ora | and | eor | adc | sbc
  | cmp | cpx | cpy
  | bit
  | lax | las
  | anc | alr | arr | xaa | lxa | axs
  | ignore
  deriving DecidableEq, Repr

/-- Operations that store a register, or the meeting of A and X. -/
inductive StoreOp
  | sta | stx | sty | sax
  deriving DecidableEq, Repr

/-- Operations that replace a byte; the last six combine one of the first six with an operation on
A. -/
inductive ModifyOp
  | asl | rol | lsr | ror | dec | inc
  | slo | rla | sre | rra | dcp | isc
  deriving DecidableEq, Repr

/-- Stores whose value is masked by the high byte of the target address. -/
inductive MaskedStoreOp
  | sha | shx | shy | tas
  deriving DecidableEq, Repr

/-- Operations on registers alone. -/
inductive RegisterOp
  | tax | tay | txa | tya | tsx | txs
  | inx | iny | dex | dey
  | clc | sec | cli | sei | clv | cld | sed
  | nop
  deriving DecidableEq, Repr

/-- A decoded instruction. -/
inductive Instruction
  /-- Fetch the operand byte and use it. -/
  | read (op : ReadOp) (mode : Mode)
  /-- Store to the operand's address. -/
  | store (op : StoreOp) (mode : Mode)
  /-- Replace the byte at the operand's address. -/
  | modify (op : ModifyOp) (mode : Mode)
  /-- Replace the accumulator. -/
  | modifyA (op : ModifyOp)
  /-- Store a masked register to the operand's address. -/
  | storeMasked (op : MaskedStoreOp) (mode : Mode)
  /-- Change registers only. -/
  | register (op : RegisterOp)
  /-- Pass over the operand byte without fetching it. -/
  | skip
  /-- Branch when the flag has the given state. -/
  | branch (flag : Flag) (state : Bool)
  /-- Software interrupt. -/
  | brk
  /-- Call a subroutine. -/
  | jsr
  /-- Return from a subroutine. -/
  | rts
  /-- Return from an interrupt. -/
  | rti
  /-- Jump to the operand word. -/
  | jmp
  /-- Jump to the word that the operand word points at. -/
  | jmpIndirect
  /-- Push the accumulator. -/
  | pha
  /-- Push the status. -/
  | php
  /-- Pull the accumulator. -/
  | pla
  /-- Pull the status. -/
  | plp
  /-- Jam the processor. -/
  | jam (opcode : UInt8)
  deriving DecidableEq, Repr

/-! ## Effect on the registers -/

/-- The registers after consuming the operand byte `v`. -/
def ReadOp.apply (op : ReadOp) (v : UInt8) (c : Cpu) : Cpu :=
  match op with
  | lda => c.loadA v
  | ldx => c.loadX v
  | ldy => c.loadY v
  | ora => c.loadA (c.a ||| v)
  | and => c.loadA (c.a &&& v)
  | eor => c.loadA (c.a ^^^ v)
  | adc => c.adc v
  | sbc => c.sbc v
  | cmp => c.compare c.a v
  | cpx => c.compare c.x v
  | cpy => c.compare c.y v
  | bit => c.bit v
  | lax => { c with a := v }.loadX v
  | las =>
    let out := v &&& c.sp
    { c with a := out, sp := out }.loadX out
  | anc => c.anc v
  | alr => c.alr v
  | arr => c.arr v
  | xaa => c.loadA ((c.a ||| Cpu.unstableMask) &&& c.x &&& v)
  | lxa =>
    let out := (c.a ||| Cpu.unstableMask) &&& v
    { c with a := out }.loadX out
  | axs => c.axs v
  | ignore => c

/-- The byte that is stored. -/
def StoreOp.value (op : StoreOp) (c : Cpu) : UInt8 :=
  match op with
  | sta => c.a
  | stx => c.x
  | sty => c.y
  | sax => c.a &&& c.x

/-- The byte that takes the place of `v`, and the registers afterwards. -/
def ModifyOp.apply (op : ModifyOp) (v : UInt8) (c : Cpu) : UInt8 × Cpu :=
  match op with
  | asl => c.asl v
  | rol => c.rol v
  | lsr => c.lsr v
  | ror => c.ror v
  | dec => c.dec v
  | inc => c.inc v
  | slo => let (out, c) := c.asl v; (out, c.loadA (c.a ||| out))
  | rla => let (out, c) := c.rol v; (out, c.loadA (c.a &&& out))
  | sre => let (out, c) := c.lsr v; (out, c.loadA (c.a ^^^ out))
  | rra => let (out, c) := c.ror v; (out, c.adc out)
  | dcp => (v - 1, c.compare c.a (v - 1))
  | isc => (v + 1, c.sbc (v + 1))

/-- The registers at the moment of the store and the byte before masking. -/
def MaskedStoreOp.apply (op : MaskedStoreOp) (c : Cpu) : UInt8 × Cpu :=
  match op with
  | sha => (c.a &&& c.x, c)
  | shx => (c.x, c)
  | shy => (c.y, c)
  | tas => (c.a &&& c.x, { c with sp := c.a &&& c.x })

/-- The registers afterwards. -/
def RegisterOp.apply (op : RegisterOp) (c : Cpu) : Cpu :=
  match op with
  | tax => c.loadX c.a
  | tay => c.loadY c.a
  | txa => c.loadA c.x
  | tya => c.loadA c.y
  | tsx => c.loadX c.sp
  | txs => { c with sp := c.x }
  | inx => c.loadX (c.x + 1)
  | iny => c.loadY (c.y + 1)
  | dex => c.loadX (c.x - 1)
  | dey => c.loadY (c.y - 1)
  | clc => c.put .carry false
  | sec => c.put .carry true
  | cli => c.put .interruptDisable false
  | sei => c.put .interruptDisable true
  | clv => c.put .overflow false
  | cld => c.put .decimal false
  | sed => c.put .decimal true
  | nop => c

end Famicom
