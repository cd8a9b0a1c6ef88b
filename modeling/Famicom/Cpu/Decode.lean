import Famicom.Cpu.Instruction

/-!
# Decoding opcodes

The low two bits of an opcode choose one of four blocks; the upper three bits are its row and the
three bits between them its column.  In two blocks the row is the operation and the column the
operand's mode; the other two are less regular.
-/

namespace Famicom.Instruction

/-- The mode of each column in the arithmetic and the combined block. -/
def columnMode : Nat → Mode
  | 0 => .indirectX
  | 1 => .zeroPage
  | 2 => .immediate
  | 3 => .absolute
  | 4 => .indirectY
  | 5 => .zeroPageX
  | 6 => .absoluteY
  | _ => .absoluteX

/-- The byte-replacing operation of each row in the adjusting block. -/
def rowModify : Nat → ModifyOp
  | 0 => .asl
  | 1 => .rol
  | 2 => .lsr
  | 3 => .ror
  | 6 => .dec
  | _ => .inc

/-- The combined operation of each row in the combined block. -/
def rowCombined : Nat → ModifyOp
  | 0 => .slo
  | 1 => .rla
  | 2 => .sre
  | 3 => .rra
  | 6 => .dcp
  | _ => .isc

/-- Block 0: branches, stack and flag instructions, the Y register, and operand-fetching no-ops. -/
def control (row column : Nat) : Instruction :=
  match column with
  | 0 =>
    match row with
    | 0 => .brk
    | 1 => .jsr
    | 2 => .rti
    | 3 => .rts
    | 4 => .read .ignore .immediate
    | 5 => .read .ldy .immediate
    | 6 => .read .cpy .immediate
    | _ => .read .cpx .immediate
  | 1 =>
    match row with
    | 1 => .read .bit .zeroPage
    | 4 => .store .sty .zeroPage
    | 5 => .read .ldy .zeroPage
    | 6 => .read .cpy .zeroPage
    | 7 => .read .cpx .zeroPage
    | _ => .read .ignore .zeroPage
  | 2 =>
    match row with
    | 0 => .php
    | 1 => .plp
    | 2 => .pha
    | 3 => .pla
    | 4 => .register .dey
    | 5 => .register .tay
    | 6 => .register .iny
    | _ => .register .inx
  | 3 =>
    match row with
    | 0 => .read .ignore .absolute
    | 1 => .read .bit .absolute
    | 2 => .jmp
    | 3 => .jmpIndirect
    | 4 => .store .sty .absolute
    | 5 => .read .ldy .absolute
    | 6 => .read .cpy .absolute
    | _ => .read .cpx .absolute
  | 4 =>
    match row with
    | 0 => .branch .negative false
    | 1 => .branch .negative true
    | 2 => .branch .overflow false
    | 3 => .branch .overflow true
    | 4 => .branch .carry false
    | 5 => .branch .carry true
    | 6 => .branch .zero false
    | _ => .branch .zero true
  | 5 =>
    match row with
    | 4 => .store .sty .zeroPageX
    | 5 => .read .ldy .zeroPageX
    | _ => .read .ignore .zeroPageX
  | 6 =>
    match row with
    | 0 => .register .clc
    | 1 => .register .sec
    | 2 => .register .cli
    | 3 => .register .sei
    | 4 => .register .tya
    | 5 => .register .clv
    | 6 => .register .cld
    | _ => .register .sed
  | _ =>
    match row with
    | 4 => .storeMasked .shy .absoluteX
    | 5 => .read .ldy .absoluteX
    | _ => .read .ignore .absoluteX

/-- Block 1: A against an operand.  There is no immediate store; its opcode passes over the
operand. -/
def arithmetic (row column : Nat) : Instruction :=
  match row with
  | 0 => .read .ora (columnMode column)
  | 1 => .read .and (columnMode column)
  | 2 => .read .eor (columnMode column)
  | 3 => .read .adc (columnMode column)
  | 4 => if column = 2 then .skip else .store .sta (columnMode column)
  | 5 => .read .lda (columnMode column)
  | 6 => .read .cmp (columnMode column)
  | _ => .read .sbc (columnMode column)

/-- Block 2: shifts, increments and decrements, the X register, and the jams. -/
def adjusting (opcode : UInt8) (row column : Nat) : Instruction :=
  match column with
  | 0 =>
    match row with
    | 0 | 1 | 2 | 3 => .jam opcode
    | 5 => .read .ldx .immediate
    | _ => .read .ignore .immediate
  | 1 => memory row .zeroPage .zeroPage
  | 2 =>
    match row with
    | 4 => .register .txa
    | 5 => .register .tax
    | 6 => .register .dex
    | 7 => .register .nop
    | _ => .modifyA (rowModify row)
  | 3 => memory row .absolute .absolute
  | 4 => .jam opcode
  | 5 => memory row .zeroPageX .zeroPageY
  | 6 =>
    match row with
    | 4 => .register .txs
    | 5 => .register .tsx
    | _ => .register .nop
  | _ =>
    match row with
    | 4 => .storeMasked .shx .absoluteY
    | _ => memory row .absoluteX .absoluteY
where
  /-- The operation of a row on memory; X itself is loaded and stored through `xMode`. -/
  memory (row : Nat) (mode xMode : Mode) : Instruction :=
    match row with
    | 4 => .store .stx xMode
    | 5 => .read .ldx xMode
    | _ => .modify (rowModify row) mode

/-- Block 3: combinations of the operations of blocks 1 and 2. -/
def combined (row column : Nat) : Instruction :=
  match column with
  | 2 =>
    match row with
    | 0 | 1 => .read .anc .immediate
    | 2 => .read .alr .immediate
    | 3 => .read .arr .immediate
    | 4 => .read .xaa .immediate
    | 5 => .read .lxa .immediate
    | 6 => .read .axs .immediate
    | _ => .read .sbc .immediate
  | _ =>
    match row with
    | 4 =>
      match column with
      | 4 => .storeMasked .sha .indirectY
      | 5 => .store .sax .zeroPageY
      | 6 => .storeMasked .tas .absoluteY
      | 7 => .storeMasked .sha .absoluteY
      | _ => .store .sax (columnMode column)
    | 5 =>
      match column with
      | 5 => .read .lax .zeroPageY
      | 6 => .read .las .absoluteY
      | 7 => .read .lax .absoluteY
      | _ => .read .lax (columnMode column)
    | _ => .modify (rowCombined row) (columnMode column)

/-- The instruction of an opcode. -/
def decode (opcode : UInt8) : Instruction :=
  let row := opcode.toNat / 32
  let column := opcode.toNat / 4 % 8
  match opcode.toNat % 4 with
  | 0 => control row column
  | 1 => arithmetic row column
  | 2 => adjusting opcode row column
  | _ => combined row column

end Famicom.Instruction
