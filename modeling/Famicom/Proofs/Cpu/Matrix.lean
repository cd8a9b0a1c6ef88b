import Famicom.Cpu.Execute

/-!
# The opcode matrix

An account of the processor that owes nothing to how it decodes: a table with the mnemonic and the
addressing mode of each of the 256 opcodes, and an interpreter of that table over flat memory.  The
interpreter finds addresses and results by integer arithmetic and takes the status byte apart flag
by flag, where the processor works on bits.

* `table` — mnemonic and mode of each opcode, by its high and its low hexadecimal digit;
* `address`, `base` — where an operand lies, and where it would lie without a 16-bit index;
* `perform` — what an instruction does to the registers and to memory;
* `step` — one instruction.
-/

namespace Famicom.Matrix

/-! ## The table -/

/-- The name of what an instruction does.  The second group is undocumented. -/
inductive Mnemonic
  | adc | and | asl | bcc | bcs | beq | bit | bmi | bne | bpl | brk | bvc | bvs | clc | cld | cli
  | clv | cmp | cpx | cpy | dec | dex | dey | eor | inc | inx | iny | jmp | jsr | lda | ldx | ldy
  | lsr | nop | ora | pha | php | pla | plp | rol | ror | rti | rts | sbc | sec | sed | sei | sta
  | stx | sty | tax | tay | tsx | txa | txs | tya
  | alr | anc | arr | axs | dcp | isc | kil | las | lax | lxa | rla | rra | sax | sha | shx | shy
  | slo | sre | tas | xaa
  deriving DecidableEq, Repr

/-- How an instruction finds its operand. -/
inductive Addressing
  /-- There is no operand. -/
  | imp
  /-- The accumulator. -/
  | acc
  /-- The byte after the opcode. -/
  | imm
  /-- Page zero. -/
  | zp
  /-- Page zero, indexed by X. -/
  | zpx
  /-- Page zero, indexed by Y. -/
  | zpy
  /-- A full address. -/
  | abs
  /-- A full address, indexed by X. -/
  | abx
  /-- A full address, indexed by Y. -/
  | aby
  /-- The address stored at a full address. -/
  | ind
  /-- The address stored in page zero, where X selects it. -/
  | izx
  /-- The address stored in page zero, indexed by Y. -/
  | izy
  /-- A signed distance from the next instruction. -/
  | rel
  deriving DecidableEq, Repr

/-- The bytes of an instruction, the opcode included. -/
def Addressing.length : Addressing → Nat
  | imp | acc => 1
  | imm | zp | zpx | zpy | izx | izy | rel => 2
  | abs | abx | aby | ind => 3

/-- Mnemonic and addressing mode by the digits of the opcode. -/
def table : Vector (Vector (Mnemonic × Addressing) 16) 16 := #v[
  #v[(.brk, .imp), (.ora, .izx), (.kil, .imp), (.slo, .izx),
     (.nop, .zp), (.ora, .zp), (.asl, .zp), (.slo, .zp),
     (.php, .imp), (.ora, .imm), (.asl, .acc), (.anc, .imm),
     (.nop, .abs), (.ora, .abs), (.asl, .abs), (.slo, .abs)],
  #v[(.bpl, .rel), (.ora, .izy), (.kil, .imp), (.slo, .izy),
     (.nop, .zpx), (.ora, .zpx), (.asl, .zpx), (.slo, .zpx),
     (.clc, .imp), (.ora, .aby), (.nop, .imp), (.slo, .aby),
     (.nop, .abx), (.ora, .abx), (.asl, .abx), (.slo, .abx)],
  #v[(.jsr, .abs), (.and, .izx), (.kil, .imp), (.rla, .izx),
     (.bit, .zp), (.and, .zp), (.rol, .zp), (.rla, .zp),
     (.plp, .imp), (.and, .imm), (.rol, .acc), (.anc, .imm),
     (.bit, .abs), (.and, .abs), (.rol, .abs), (.rla, .abs)],
  #v[(.bmi, .rel), (.and, .izy), (.kil, .imp), (.rla, .izy),
     (.nop, .zpx), (.and, .zpx), (.rol, .zpx), (.rla, .zpx),
     (.sec, .imp), (.and, .aby), (.nop, .imp), (.rla, .aby),
     (.nop, .abx), (.and, .abx), (.rol, .abx), (.rla, .abx)],
  #v[(.rti, .imp), (.eor, .izx), (.kil, .imp), (.sre, .izx),
     (.nop, .zp), (.eor, .zp), (.lsr, .zp), (.sre, .zp),
     (.pha, .imp), (.eor, .imm), (.lsr, .acc), (.alr, .imm),
     (.jmp, .abs), (.eor, .abs), (.lsr, .abs), (.sre, .abs)],
  #v[(.bvc, .rel), (.eor, .izy), (.kil, .imp), (.sre, .izy),
     (.nop, .zpx), (.eor, .zpx), (.lsr, .zpx), (.sre, .zpx),
     (.cli, .imp), (.eor, .aby), (.nop, .imp), (.sre, .aby),
     (.nop, .abx), (.eor, .abx), (.lsr, .abx), (.sre, .abx)],
  #v[(.rts, .imp), (.adc, .izx), (.kil, .imp), (.rra, .izx),
     (.nop, .zp), (.adc, .zp), (.ror, .zp), (.rra, .zp),
     (.pla, .imp), (.adc, .imm), (.ror, .acc), (.arr, .imm),
     (.jmp, .ind), (.adc, .abs), (.ror, .abs), (.rra, .abs)],
  #v[(.bvs, .rel), (.adc, .izy), (.kil, .imp), (.rra, .izy),
     (.nop, .zpx), (.adc, .zpx), (.ror, .zpx), (.rra, .zpx),
     (.sei, .imp), (.adc, .aby), (.nop, .imp), (.rra, .aby),
     (.nop, .abx), (.adc, .abx), (.ror, .abx), (.rra, .abx)],
  #v[(.nop, .imm), (.sta, .izx), (.nop, .imm), (.sax, .izx),
     (.sty, .zp), (.sta, .zp), (.stx, .zp), (.sax, .zp),
     (.dey, .imp), (.nop, .imm), (.txa, .imp), (.xaa, .imm),
     (.sty, .abs), (.sta, .abs), (.stx, .abs), (.sax, .abs)],
  #v[(.bcc, .rel), (.sta, .izy), (.kil, .imp), (.sha, .izy),
     (.sty, .zpx), (.sta, .zpx), (.stx, .zpy), (.sax, .zpy),
     (.tya, .imp), (.sta, .aby), (.txs, .imp), (.tas, .aby),
     (.shy, .abx), (.sta, .abx), (.shx, .aby), (.sha, .aby)],
  #v[(.ldy, .imm), (.lda, .izx), (.ldx, .imm), (.lax, .izx),
     (.ldy, .zp), (.lda, .zp), (.ldx, .zp), (.lax, .zp),
     (.tay, .imp), (.lda, .imm), (.tax, .imp), (.lxa, .imm),
     (.ldy, .abs), (.lda, .abs), (.ldx, .abs), (.lax, .abs)],
  #v[(.bcs, .rel), (.lda, .izy), (.kil, .imp), (.lax, .izy),
     (.ldy, .zpx), (.lda, .zpx), (.ldx, .zpy), (.lax, .zpy),
     (.clv, .imp), (.lda, .aby), (.tsx, .imp), (.las, .aby),
     (.ldy, .abx), (.lda, .abx), (.ldx, .aby), (.lax, .aby)],
  #v[(.cpy, .imm), (.cmp, .izx), (.nop, .imm), (.dcp, .izx),
     (.cpy, .zp), (.cmp, .zp), (.dec, .zp), (.dcp, .zp),
     (.iny, .imp), (.cmp, .imm), (.dex, .imp), (.axs, .imm),
     (.cpy, .abs), (.cmp, .abs), (.dec, .abs), (.dcp, .abs)],
  #v[(.bne, .rel), (.cmp, .izy), (.kil, .imp), (.dcp, .izy),
     (.nop, .zpx), (.cmp, .zpx), (.dec, .zpx), (.dcp, .zpx),
     (.cld, .imp), (.cmp, .aby), (.nop, .imp), (.dcp, .aby),
     (.nop, .abx), (.cmp, .abx), (.dec, .abx), (.dcp, .abx)],
  #v[(.cpx, .imm), (.sbc, .izx), (.nop, .imm), (.isc, .izx),
     (.cpx, .zp), (.sbc, .zp), (.inc, .zp), (.isc, .zp),
     (.inx, .imp), (.sbc, .imm), (.nop, .imp), (.sbc, .imm),
     (.cpx, .abs), (.sbc, .abs), (.inc, .abs), (.isc, .abs)],
  #v[(.beq, .rel), (.sbc, .izy), (.kil, .imp), (.isc, .izy),
     (.nop, .zpx), (.sbc, .zpx), (.inc, .zpx), (.isc, .zpx),
     (.sed, .imp), (.sbc, .aby), (.nop, .imp), (.isc, .aby),
     (.nop, .abx), (.sbc, .abx), (.inc, .abx), (.isc, .abx)]]

/-- Mnemonic and addressing mode of an opcode. -/
def entry (opcode : UInt8) : Mnemonic × Addressing :=
  (table.get (highDigit opcode)).get (lowDigit opcode)

/-! ## Flags -/

/-- The status byte, flag by flag. -/
structure Flags where
  carry : Bool
  zero : Bool
  interruptDisable : Bool
  decimal : Bool
  brk : Bool
  unused : Bool
  overflow : Bool
  negative : Bool
  deriving DecidableEq, Repr

/-- The flags in a status byte, carry lowest. -/
def Flags.ofByte (b : UInt8) : Flags where
  carry := b.toNat % 2 = 1
  zero := b.toNat / 2 % 2 = 1
  interruptDisable := b.toNat / 4 % 2 = 1
  decimal := b.toNat / 8 % 2 = 1
  brk := b.toNat / 16 % 2 = 1
  unused := b.toNat / 32 % 2 = 1
  overflow := b.toNat / 64 % 2 = 1
  negative := b.toNat / 128 % 2 = 1

/-- The status byte of given flags. -/
def Flags.toByte (f : Flags) : UInt8 :=
  UInt8.ofNat (f.carry.toNat + 2 * f.zero.toNat + 4 * f.interruptDisable.toNat
    + 8 * f.decimal.toNat + 16 * f.brk.toNat + 32 * f.unused.toNat + 64 * f.overflow.toNat
    + 128 * f.negative.toNat)

/-- The flags of a processor. -/
def flags (c : Cpu) : Flags := .ofByte c.p.bits

/-- Change flags.  Whatever sets a flag leaves the unused one set. -/
def setFlags (c : Cpu) (f : Flags → Flags) : Cpu :=
  { c with p := ⟨{ f (flags c) with unused := true }.toByte⟩ }

/-- Zero and negative follow a result. -/
def setResult (c : Cpu) (v : UInt8) : Cpu :=
  setFlags c fun f => { f with zero := v.toNat = 0, negative := 128 ≤ v.toNat }

/-! ## Arithmetic -/

/-- A byte read in two's complement. -/
def signed (b : UInt8) : Int := if b.toNat < 128 then b.toNat else b.toNat - 256

/-- Add a byte and the carry to A.  Carry tells that the sum has nine bits, overflow that the signed
sum does not fit a byte. -/
def add (c : Cpu) (v : UInt8) : Cpu :=
  let carry := (flags c).carry.toNat
  let sum := c.a.toNat + v.toNat + carry
  let signedSum := signed c.a + signed v + carry
  let c := setFlags c fun f =>
    { f with carry := 255 < sum, overflow := signedSum < -128 ∨ 127 < signedSum }
  setResult { c with a := UInt8.ofNat sum } (UInt8.ofNat sum)

/-- Subtract a byte and the missing carry from A.  Carry tells that nothing was borrowed, overflow
that the signed difference does not fit a byte. -/
def subtract (c : Cpu) (v : UInt8) : Cpu :=
  let borrow := (!(flags c).carry).toNat
  let out := UInt8.ofNat (c.a.toNat + 256 - v.toNat - borrow)
  let signedDifference := signed c.a - signed v - borrow
  let carry := decide (v.toNat + borrow ≤ c.a.toNat)
  let c := setFlags c fun f =>
    { f with carry, overflow := signedDifference < -128 ∨ 127 < signedDifference }
  setResult { c with a := out } out

/-- Compare a register with a byte. -/
def compare (c : Cpu) (register v : UInt8) : Cpu :=
  let difference := (register.toNat + 256 - v.toNat) % 256
  setFlags c fun f =>
    { f with
      carry := v.toNat ≤ register.toNat
      zero := register = v
      negative := 128 ≤ difference }

/-- Double a byte and add `bit`; carry takes what falls out. -/
def shiftLeft (c : Cpu) (v : UInt8) (bit : Bool) : UInt8 × Cpu :=
  let out := UInt8.ofNat (2 * v.toNat + bit.toNat)
  (out, setResult (setFlags c fun f => { f with carry := 128 ≤ v.toNat }) out)

/-- Halve a byte and put `bit` on top; carry takes what falls out. -/
def shiftRight (c : Cpu) (v : UInt8) (bit : Bool) : UInt8 × Cpu :=
  let out := UInt8.ofNat (v.toNat / 2 + 128 * bit.toNat)
  (out, setResult (setFlags c fun f => { f with carry := v.toNat % 2 = 1 }) out)

/-- One more than a byte. -/
def next (v : UInt8) : UInt8 := UInt8.ofNat (v.toNat + 1)

/-- One less than a byte. -/
def previous (v : UInt8) : UInt8 := UInt8.ofNat (v.toNat + 255)

/-! ## Addresses -/

/-- The address `n` cells further on; the last cell is followed by the first. -/
def past (addr : UInt16) (n : Nat) : UInt16 := UInt16.ofNat (addr.toNat + n)

/-- The address of cell `n` of page zero, which is followed by itself. -/
def inZeroPage (n : Nat) : UInt16 := UInt16.ofNat (n % 256)

/-- The word whose low byte is at `lo` and whose high byte is at `hi`. -/
def wordAt (m : FlatMemory) (lo hi : UInt16) : UInt16 :=
  UInt16.ofNat ((m.get lo).toNat + 256 * (m.get hi).toNat)

/-- The word at cell `n` of page zero. -/
def zeroPageWord (m : FlatMemory) (n : Nat) : UInt16 :=
  wordAt m (inZeroPage n) (inZeroPage (n + 1))

/-- The address that follows another within its page. -/
def pastInPage (addr : UInt16) : UInt16 :=
  UInt16.ofNat (addr.toNat / 256 * 256 + (addr.toNat + 1) % 256)

/-- The operand's address before a 16-bit index is added to it. -/
def base (mode : Addressing) (c : Cpu) (m : FlatMemory) : UInt16 :=
  let first := (m.get (past c.pc 1)).toNat
  match mode with
  | .imp | .acc | .rel => c.pc
  | .imm => past c.pc 1
  | .zp => inZeroPage first
  | .zpx => inZeroPage (first + c.x.toNat)
  | .zpy => inZeroPage (first + c.y.toNat)
  | .abs | .abx | .aby | .ind => wordAt m (past c.pc 1) (past c.pc 2)
  | .izx => zeroPageWord m (first + c.x.toNat)
  | .izy => zeroPageWord m first

/-- The operand's address. -/
def address (mode : Addressing) (c : Cpu) (m : FlatMemory) : UInt16 :=
  let addr := base mode c m
  match mode with
  | .abx => past addr c.x.toNat
  | .aby | .izy => past addr c.y.toNat
  | .ind => wordAt m addr (pastInPage addr)
  | .rel => UInt16.ofInt (c.pc.toNat + 2 + signed (m.get (past c.pc 1)))
  | _ => addr

/-! ## The stack -/

/-- The cell of the stack that a stack pointer names. -/
def stackCell (sp : UInt8) : UInt16 := UInt16.ofNat (256 + sp.toNat)

/-- Push a byte. -/
def push (v : UInt8) : Cpu × FlatMemory → Cpu × FlatMemory
  | (c, m) => ({ c with sp := previous c.sp }, m.set (stackCell c.sp) v)

/-- Push a word, high byte first. -/
def pushWord (w : UInt16) (s : Cpu × FlatMemory) : Cpu × FlatMemory :=
  push (UInt8.ofNat w.toNat) (push (UInt8.ofNat (w.toNat / 256)) s)

/-- The byte `n` places above a stack pointer. -/
def pulled (sp : UInt8) (m : FlatMemory) (n : Nat) : UInt8 :=
  m.get (stackCell (UInt8.ofNat (sp.toNat + n)))

/-- The word whose low byte is `n` places above a stack pointer. -/
def pulledWord (sp : UInt8) (m : FlatMemory) (n : Nat) : UInt16 :=
  UInt16.ofNat ((pulled sp m n).toNat + 256 * (pulled sp m (n + 1)).toNat)

/-- The status that a pulled byte brings: break is dropped from it and unused is set. -/
def pulledStatus (b : UInt8) : Status :=
  ⟨{ Flags.ofByte b with brk := false, unused := true }.toByte⟩

/-- The copy of the status that instructions push: break and unused are set in it. -/
def pushedStatus (c : Cpu) : UInt8 := { flags c with brk := true, unused := true }.toByte

/-! ## Instructions -/

/-- The place and the byte of a store that the high byte of the unindexed address masks.  On a page
crossing the byte is also the high byte of the place. -/
def maskedStore (base address : UInt16) (v : UInt8) : UInt16 × UInt8 :=
  let masked := v &&& UInt8.ofNat (base.toNat / 256 + 1)
  if base.toNat / 256 = address.toNat / 256 then (address, masked)
  else (UInt16.ofNat (256 * masked.toNat + address.toNat % 256), masked)

/-- Whether an instruction goes on elsewhere than behind its own bytes. -/
def Mnemonic.redirects (name : Mnemonic) (f : Flags) : Bool :=
  match name with
  | bcc => !f.carry
  | bcs => f.carry
  | bne => !f.zero
  | beq => f.zero
  | bpl => !f.negative
  | bmi => f.negative
  | bvc => !f.overflow
  | bvs => f.overflow
  | jmp | jsr | rts | rti | brk | kil => true
  | _ => false

/-- Execute an instruction whose opcode is at the program counter. -/
def perform (name : Mnemonic) (mode : Addressing) (c₀ : Cpu) (m : FlatMemory) : Cpu × FlatMemory :=
  let place := address mode c₀ m
  let v := if mode = .acc then c₀.a else m.get place
  let c := { c₀ with pc := past c₀.pc mode.length }
  let branch (taken : Bool) := (if taken then { c with pc := place } else c, m)
  let store (value : UInt8) := (c, m.set place value)
  let storeMasked (value : UInt8) (c : Cpu) :=
    let (place, value) := maskedStore (base mode c₀ m) place value
    (c, m.set place value)
  let replace (out : UInt8 × Cpu) :=
    if mode = .acc then ({ out.2 with a := out.1 }, m) else (out.2, m.set place out.1)
  let loadA (v : UInt8) := (setResult { c with a := v } v, m)
  let loadX (v : UInt8) := (setResult { c with x := v } v, m)
  let loadY (v : UInt8) := (setResult { c with y := v } v, m)
  let thenA (out : UInt8 × Cpu) (combine : UInt8 → UInt8 → UInt8) : UInt8 × Cpu :=
    (out.1, setResult { out.2 with a := combine out.2.a out.1 } (combine out.2.a out.1))
  match name with
  | .lda => loadA v
  | .ldx => loadX v
  | .ldy => loadY v
  | .tax => loadX c.a
  | .tay => loadY c.a
  | .tsx => loadX c.sp
  | .txa => loadA c.x
  | .tya => loadA c.y
  | .txs => ({ c with sp := c.x }, m)
  | .inx => loadX (next c.x)
  | .iny => loadY (next c.y)
  | .dex => loadX (previous c.x)
  | .dey => loadY (previous c.y)
  | .sta => store c.a
  | .stx => store c.x
  | .sty => store c.y
  | .sax => store (c.a &&& c.x)
  | .ora => loadA (c.a ||| v)
  | .and => loadA (c.a &&& v)
  | .eor => loadA (c.a ^^^ v)
  | .adc => (add c v, m)
  | .sbc => (subtract c v, m)
  | .cmp => (compare c c.a v, m)
  | .cpx => (compare c c.x v, m)
  | .cpy => (compare c c.y v, m)
  | .bit => (setFlags c fun f =>
      { f with
        zero := c.a &&& v = 0
        negative := 128 ≤ v.toNat
        overflow := v.toNat / 64 % 2 = 1 }, m)
  | .asl => replace (shiftLeft c v false)
  | .rol => replace (shiftLeft c v (flags c).carry)
  | .lsr => replace (shiftRight c v false)
  | .ror => replace (shiftRight c v (flags c).carry)
  | .inc => replace (next v, setResult c (next v))
  | .dec => replace (previous v, setResult c (previous v))
  | .slo => replace (thenA (shiftLeft c v false) (· ||| ·))
  | .rla => replace (thenA (shiftLeft c v (flags c).carry) (· &&& ·))
  | .sre => replace (thenA (shiftRight c v false) (· ^^^ ·))
  | .rra =>
    let (out, c) := shiftRight c v (flags c).carry
    replace (out, add c out)
  | .isc => replace (next v, subtract c (next v))
  | .dcp => replace (previous v, compare c c.a (previous v))
  | .lax => (setResult { c with a := v, x := v } v, m)
  | .las =>
    let out := v &&& c.sp
    (setResult { c with a := out, x := out, sp := out } out, m)
  | .anc =>
    let out := c.a &&& v
    (setFlags (setResult { c with a := out } out) fun f => { f with carry := 128 ≤ out.toNat }, m)
  | .alr =>
    let (out, c) := shiftRight c (c.a &&& v) false
    ({ c with a := out }, m)
  | .arr =>
    let out := (shiftRight c (c.a &&& v) (flags c).carry).1
    (setFlags (setResult { c with a := out } out) fun f =>
      { f with
        carry := out.toNat / 64 % 2 = 1
        overflow := out.toNat / 64 % 2 ≠ out.toNat / 32 % 2 }, m)
  | .xaa => loadA ((c.a ||| 0xEE) &&& c.x &&& v)
  | .lxa =>
    let out := (c.a ||| 0xEE) &&& v
    (setResult { c with a := out, x := out } out, m)
  | .axs =>
    let both := c.a &&& c.x
    let out := UInt8.ofNat (both.toNat + 256 - v.toNat)
    let c := setFlags c fun f => { f with carry := v.toNat ≤ both.toNat }
    (setResult { c with x := out } out, m)
  | .sha => storeMasked (c.a &&& c.x) c
  | .shx => storeMasked c.x c
  | .shy => storeMasked c.y c
  | .tas => storeMasked (c.a &&& c.x) { c with sp := c.a &&& c.x }
  | .clc => (setFlags c fun f => { f with carry := false }, m)
  | .sec => (setFlags c fun f => { f with carry := true }, m)
  | .cli => (setFlags c fun f => { f with interruptDisable := false }, m)
  | .sei => (setFlags c fun f => { f with interruptDisable := true }, m)
  | .cld => (setFlags c fun f => { f with decimal := false }, m)
  | .sed => (setFlags c fun f => { f with decimal := true }, m)
  | .clv => (setFlags c fun f => { f with overflow := false }, m)
  | .bcc => branch !(flags c).carry
  | .bcs => branch (flags c).carry
  | .bne => branch !(flags c).zero
  | .beq => branch (flags c).zero
  | .bpl => branch !(flags c).negative
  | .bmi => branch (flags c).negative
  | .bvc => branch !(flags c).overflow
  | .bvs => branch (flags c).overflow
  | .jmp => ({ c with pc := place }, m)
  | .jsr =>
    let (c, m) := pushWord (past c₀.pc 2) (c, m)
    ({ c with pc := place }, m)
  | .rts =>
    ({ c with sp := UInt8.ofNat (c.sp.toNat + 2), pc := past (pulledWord c.sp m 1) 1 }, m)
  | .rti =>
    ({ c with
        p := pulledStatus (pulled c.sp m 1)
        sp := UInt8.ofNat (c.sp.toNat + 3)
        pc := pulledWord c.sp m 2 }, m)
  | .brk =>
    let (c, m) := push (pushedStatus c) (pushWord (past c₀.pc 2) (c, m))
    let c := setFlags c fun f => { f with interruptDisable := true }
    ({ c with pc := wordAt m 0xFFFE 0xFFFF }, m)
  | .pha => push c.a (c, m)
  | .php => push (pushedStatus c) (c, m)
  | .pla =>
    let v := pulled c.sp m 1
    (setResult { c with a := v, sp := next c.sp } v, m)
  | .plp => ({ c with p := pulledStatus (pulled c.sp m 1), sp := next c.sp }, m)
  | .nop => (c, m)
  | .kil => ({ c₀ with halt := some ⟨m.get c₀.pc, c₀.pc⟩ }, m)

/-- Execute one instruction and count its cycles; a jammed processor executes nothing. -/
def step : Cpu × FlatMemory → Nat × (Cpu × FlatMemory)
  | (c, m) =>
    if c.halt.isSome then (0, (c, m))
    else
      let opcode := m.get c.pc
      let (name, mode) := entry opcode
      let (after, m) := perform name mode c m
      let cycles := Timing.cycles opcode
      (cycles, ({ after with totalCycles := after.totalCycles + UInt64.ofNat cycles }, m))

end Famicom.Matrix
