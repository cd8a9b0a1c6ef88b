import Famicom.Proofs.Cpu.Arithmetic

/-!
# The processor refines the opcode matrix

On flat memory one step of the processor is one step of the opcode matrix: the same registers, the
same memory and the same number of cycles, for every opcode, every state of the registers and every
content of memory.

The proof goes class by class.  `entryOf?` names the mnemonic and the mode of a decoded instruction;
`entryOf?_decode` compares it with the table; `locate_eq` compares the addresses; and for each class
of instructions one lemma compares their effects.
-/

namespace Famicom

open Famicom.Matrix

/-! ## Running on flat memory -/

namespace Exec

variable {α β : Type}

theorem bind_apply {σ : Type} (x : Exec σ α) (f : α → Exec σ β) (s : Cpu × σ) :
    (x >>= f) s = f (x s).1 (x s).2 := rfl

theorem pure_apply {σ : Type} (a : α) (s : Cpu × σ) : (pure a : Exec σ α) s = (a, s) := rfl

theorem registers_flat (c : Cpu) (m : FlatMemory) : registers (c, m) = (c, (c, m)) := rfl

theorem update_flat (f : Cpu → Cpu) (c : Cpu) (m : FlatMemory) :
    update f (c, m) = ((), (f c, m)) := rfl

theorem read_flat (addr : UInt16) (c : Cpu) (m : FlatMemory) :
    read addr (c, m) = (m.get addr, (c, m)) := rfl

theorem write_flat (addr : UInt16) (v : UInt8) (c : Cpu) (m : FlatMemory) :
    write addr v (c, m) = ((), (c, m.set addr v)) := rfl

theorem advance_flat (c : Cpu) (m : FlatMemory) :
    advance (c, m) = (c.pc, ({ c with pc := c.pc + 1 }, m)) := rfl

theorem fetch_flat (c : Cpu) (m : FlatMemory) :
    fetch (c, m) = (m.get c.pc, ({ c with pc := c.pc + 1 }, m)) := rfl

end Exec

namespace Matrix

open Exec

/-! ## Addresses -/

theorem past_one (a : UInt16) : past a 1 = a + 1 := by
  apply UInt16.toNat_inj.mp
  simp [past]

theorem past_two (a : UInt16) : past a 2 = a + 1 + 1 := by
  apply UInt16.toNat_inj.mp
  simp only [past, UInt16.toNat_ofNat', UInt16.toNat_add, UInt16.toNat_one]
  omega

theorem past_three (a : UInt16) : past a 3 = a + 1 + 1 + 1 := by
  apply UInt16.toNat_inj.mp
  simp only [past, UInt16.toNat_ofNat', UInt16.toNat_add, UInt16.toNat_one]
  omega

/-- Adding an index to an address wraps around at the end of memory. -/
theorem past_toNat (a : UInt16) (b : UInt8) : past a b.toNat = a + b.toUInt16 := by
  rw [add_eq_ofNat, UInt8.toNat_toUInt16, past]

theorem wordOf_get (m : FlatMemory) (lo hi : UInt16) :
    wordOf (m.get lo) (m.get hi) = wordAt m lo hi := wordOf_eq_ofNat _ _

theorem toUInt16_eq_inZeroPage (b : UInt8) : b.toUInt16 = inZeroPage b.toNat := by
  have := b.toNat_lt
  rw [toUInt16_eq_ofNat, inZeroPage, Nat.mod_eq_of_lt (by omega)]

/-- Adding an index within the zero page stays there. -/
theorem add_toUInt16_eq_inZeroPage (a b : UInt8) :
    (a + b).toUInt16 = inZeroPage (a.toNat + b.toNat) := by
  rw [toUInt16_eq_ofNat, inZeroPage, UInt8.toNat_add]

theorem zeroPageWord_add (m : FlatMemory) (a b : UInt8) :
    zeroPageWord m (a + b).toNat = zeroPageWord m (a.toNat + b.toNat) := by
  simp [zeroPageWord, inZeroPage]

theorem fetchWord_flat (c : Cpu) (m : FlatMemory) :
    fetchWord (c, m) = (wordAt m c.pc (c.pc + 1), ({ c with pc := c.pc + 1 + 1 }, m)) := by
  rw [← wordOf_get]
  rfl

theorem readWord_flat (addr : UInt16) (c : Cpu) (m : FlatMemory) :
    readWord addr (c, m) = (wordAt m addr (addr + 1), (c, m)) := by
  rw [← wordOf_get]
  rfl

/-- A pointer in the zero page has both its bytes there. -/
theorem readZeroPageWord_flat (p : UInt8) (c : Cpu) (m : FlatMemory) :
    readZeroPageWord p (c, m) = (zeroPageWord m p.toNat, (c, m)) := by
  rw [zeroPageWord, ← toUInt16_eq_inZeroPage, ← UInt8.toNat_one, ← add_toUInt16_eq_inZeroPage,
    ← wordOf_get]
  rfl

/-- The indirect jump takes its second byte from the same page. -/
theorem pastInPage_eq (a : UInt16) : wordOf (lowByte a + 1) (highByte a) = pastInPage a := by
  have := a.toNat_lt
  rw [wordOf_eq_ofNat, pastInPage]
  congr 1
  simp only [UInt8.toNat_add, toNat_lowByte, toNat_highByte, UInt8.toNat_one]
  omega

/-- The addressing mode of an operand in memory. -/
def Addressing.ofMode : Mode → Addressing
  | .immediate => .imm
  | .zeroPage => .zp
  | .zeroPageX => .zpx
  | .zeroPageY => .zpy
  | .absolute => .abs
  | .absoluteX => .abx
  | .absoluteY => .aby
  | .indirectX => .izx
  | .indirectY => .izy

theorem Addressing.ofMode_ne_acc (mode : Mode) : ofMode mode ≠ .acc := by
  cases mode <;> simp [ofMode]

/-- The registers after an instruction's bytes have been passed over. -/
def passed (mode : Addressing) (c : Cpu) : Cpu := { c with pc := past c.pc mode.length }

/-- Operands are found where the matrix says. -/
theorem locate_eq (mode : Mode) (c : Cpu) (m : FlatMemory) :
    locate mode ({ c with pc := c.pc + 1 }, m) =
      (⟨base (.ofMode mode) c m, address (.ofMode mode) c m⟩, (passed (.ofMode mode) c, m)) := by
  cases mode <;>
    simp only [locate, bind_apply, pure_apply, fetch_flat, fetchWord_flat, readZeroPageWord_flat,
      registers_flat, advance_flat, Operand.direct, Operand.indexed, base, address, passed,
      Addressing.ofMode, Addressing.length, past_one, past_two, past_three, past_toNat,
      zeroPageWord_add, add_toUInt16_eq_inZeroPage]
  case zeroPage => rw [toUInt16_eq_inZeroPage]

/-! ## Operations on an operand byte -/

theorem loadA_eq (c : Cpu) (v : UInt8) : c.loadA v = setResult { c with a := v } v :=
  putResult_eq _ v

theorem loadX_eq (c : Cpu) (v : UInt8) : c.loadX v = setResult { c with x := v } v :=
  putResult_eq _ v

theorem loadY_eq (c : Cpu) (v : UInt8) : c.loadY v = setResult { c with y := v } v :=
  putResult_eq _ v

/-- The mnemonic of an operation on an operand byte. -/
def readName : ReadOp → Mnemonic
  | .lda => .lda
  | .ldx => .ldx
  | .ldy => .ldy
  | .ora => .ora
  | .and => .and
  | .eor => .eor
  | .adc => .adc
  | .sbc => .sbc
  | .cmp => .cmp
  | .cpx => .cpx
  | .cpy => .cpy
  | .bit => .bit
  | .lax => .lax
  | .las => .las
  | .anc => .anc
  | .alr => .alr
  | .arr => .arr
  | .xaa => .xaa
  | .lxa => .lxa
  | .axs => .axs
  | .ignore => .nop

theorem anc_eq (c : Cpu) (v : UInt8) :
    c.anc v = setFlags (setResult { c with a := c.a &&& v } (c.a &&& v)) fun f =>
      { f with carry := 128 ≤ (c.a &&& v).toNat } := by
  rw [Cpu.anc, put_eq_setFlags, loadA_eq, signBit_eq]
  rfl

/-- The combined rotation takes carry and overflow from two bits of its result. -/
theorem arr_eq (c : Cpu) (v : UInt8) :
    c.arr v =
      let out := (shiftRight c (c.a &&& v) (flags c).carry).1
      setFlags (setResult { c with a := out } out) fun f =>
        { f with
          carry := out.toNat / 64 % 2 = 1
          overflow := out.toNat / 64 % 2 ≠ out.toNat / 32 % 2 } := by
  have hxor (n : Nat) : (decide (n / 64 % 2 = 1) != decide (n / 32 % 2 = 1)) =
      decide (n / 64 % 2 ≠ n / 32 % 2) := by
    rw [Bool.eq_iff_iff, bne_iff_ne, ne_eq, decide_eq_decide, decide_eq_true_iff]
    omega
  simp only [Cpu.arr, test_eq_flags, Flags.get, shiftRight_or, put_eq_setFlags, loadA_eq,
    setFlags_setFlags, setResult, hasBits_bit6, hasBits_bit5, hxor, shiftRight]
  rfl

theorem axs_eq (c : Cpu) (v : UInt8) :
    c.axs v =
      let both := c.a &&& c.x
      let out := UInt8.ofNat (both.toNat + 256 - v.toNat)
      setResult { setFlags c (fun f => { f with carry := v.toNat ≤ both.toNat }) with x := out }
        out := by
  have hsub (a : UInt8) : a - v = UInt8.ofNat (a.toNat + 256 - v.toNat) := by
    have ha := a.toNat_lt
    have hv := v.toNat_lt
    apply UInt8.toNat_inj.mp
    rw [UInt8.toNat_sub, UInt8.toNat_ofNat']
    omega
  simp only [Cpu.axs, put_eq_setFlags, loadX_eq, hsub, UInt8.le_iff_toNat_le, Flags.assign]

/-- Operations on an operand byte do what the matrix says. -/
theorem perform_readName (op : ReadOp) {mode : Addressing} (h : mode ≠ .acc) (c : Cpu)
    (m : FlatMemory) :
    perform (readName op) mode c m = (op.apply (m.get (address mode c m)) (passed mode c), m) := by
  cases op <;>
    simp only [readName, perform, ReadOp.apply, if_neg h, loadA_eq, loadX_eq, loadY_eq, adc_eq_add,
      sbc_eq_subtract, compare_eq, bit_eq, anc_eq, arr_eq, axs_eq, Cpu.alr, lsr_eq] <;>
    rfl

/-! ## Stores -/

/-- The mnemonic of a store. -/
def storeName : StoreOp → Mnemonic
  | .sta => .sta
  | .stx => .stx
  | .sty => .sty
  | .sax => .sax

/-- A store writes what the operation says once the operand has been passed. -/
theorem perform_storeName (op : StoreOp) (mode : Addressing) (c : Cpu) (m : FlatMemory) :
    perform (storeName op) mode c m =
      (passed mode c, m.set (address mode c m) (op.value (passed mode c))) := by
  cases op <;> rfl

/-- The mnemonic of a masked store. -/
def maskedName : MaskedStoreOp → Mnemonic
  | .sha => .sha
  | .shx => .shx
  | .shy => .shy
  | .tas => .tas

theorem perform_maskedName (op : MaskedStoreOp) (mode : Addressing) (c : Cpu) (m : FlatMemory) :
    perform (maskedName op) mode c m =
      let (value, after) := op.apply (passed mode c)
      let (place, masked) := maskedStore (base mode c m) (address mode c m) value
      (after, m.set place masked) := by
  cases op <;> rfl

theorem highByte_eq_ofNat (w : UInt16) : highByte w = UInt8.ofNat (w.toNat / 256) := by
  have hw := w.toNat_lt
  apply UInt8.toNat_inj.mp
  rw [toNat_highByte, UInt8.toNat_ofNat']
  omega

/-- Two addresses lie in one page if their high bytes agree. -/
theorem highByte_eq_iff (a b : UInt16) :
    highByte a = highByte b ↔ a.toNat / 256 = b.toNat / 256 := by
  rw [← UInt8.toNat_inj, toNat_highByte, toNat_highByte]

/-- A masked store goes where the matrix says and stores what it says. -/
theorem storeMasked_flat (b a : UInt16) (v : UInt8) (c : Cpu) (m : FlatMemory) :
    storeMasked ⟨b, a⟩ v (c, m) =
      ((), (c, m.set (maskedStore b a v).1 (maskedStore b a v).2)) := by
  have hmask : highByte b + 1 = UInt8.ofNat (b.toNat / 256 + 1) := by
    rw [highByte_eq_ofNat, UInt8.ofNat_add]
    rfl
  have hplace (masked : UInt8) : wordOf (lowByte a) masked =
      UInt16.ofNat (256 * masked.toNat + a.toNat % 256) := by
    rw [wordOf_eq_ofNat, toNat_lowByte, Nat.add_comm]
  simp only [storeMasked, write_flat, hmask, hplace, highByte_eq_iff, maskedStore]
  split <;> rfl

/-! ## Replacing a byte -/

/-- The mnemonic of an operation that replaces a byte. -/
def modifyName : ModifyOp → Mnemonic
  | .asl => .asl
  | .rol => .rol
  | .lsr => .lsr
  | .ror => .ror
  | .dec => .dec
  | .inc => .inc
  | .slo => .slo
  | .rla => .rla
  | .sre => .sre
  | .rra => .rra
  | .dcp => .dcp
  | .isc => .isc

/-- Operations that replace a byte compute what the matrix says. -/
theorem perform_modifyName (op : ModifyOp) (mode : Addressing) (c : Cpu) (m : FlatMemory) :
    perform (modifyName op) mode c m =
      let v := if mode = .acc then c.a else m.get (address mode c m)
      let (out, after) := op.apply v (passed mode c)
      if mode = .acc then ({ after with a := out }, m)
      else (after, m.set (address mode c m) out) := by
  cases op <;>
    simp only [modifyName, perform, ModifyOp.apply, asl_eq, rol_eq, lsr_eq, ror_eq, Cpu.inc,
      Cpu.dec, add_one_eq_next, sub_one_eq_previous, putResult_eq, loadA_eq, adc_eq_add,
      sbc_eq_subtract, compare_eq] <;>
    rfl

/-! ## Operations on registers -/

/-- The mnemonic of an operation on registers. -/
def registerName : RegisterOp → Mnemonic
  | .tax => .tax
  | .tay => .tay
  | .txa => .txa
  | .tya => .tya
  | .tsx => .tsx
  | .txs => .txs
  | .inx => .inx
  | .iny => .iny
  | .dex => .dex
  | .dey => .dey
  | .clc => .clc
  | .sec => .sec
  | .cli => .cli
  | .sei => .sei
  | .clv => .clv
  | .cld => .cld
  | .sed => .sed
  | .nop => .nop

theorem perform_registerName (op : RegisterOp) (c : Cpu) (m : FlatMemory) :
    perform (registerName op) .imp c m = (op.apply (passed .imp c), m) := by
  cases op <;>
    simp only [registerName, perform, RegisterOp.apply, loadA_eq, loadX_eq, loadY_eq,
      put_eq_setFlags, add_one_eq_next, sub_one_eq_previous, Flags.assign] <;>
    rfl

/-! ## Branches -/

/-- The mnemonic of a branch on a flag, where there is one. -/
def branchName? : Flag → Bool → Option Mnemonic
  | .carry, false => some .bcc
  | .carry, true => some .bcs
  | .zero, false => some .bne
  | .zero, true => some .beq
  | .negative, false => some .bpl
  | .negative, true => some .bmi
  | .overflow, false => some .bvc
  | .overflow, true => some .bvs
  | _, _ => none

theorem perform_branchName? {flag : Flag} {state : Bool} {name : Mnemonic}
    (h : branchName? flag state = some name) (c : Cpu) (m : FlatMemory) :
    perform name .rel c m =
      (if (flags c).get flag = state then { passed .rel c with pc := address .rel c m }
        else passed .rel c, m) := by
  cases flag <;> cases state <;> simp only [branchName?, reduceCtorEq, Option.some.injEq] at h <;>
    subst h <;> simp only [perform, Flags.get, Bool.not_eq_true'] <;> rfl

/-- A taken branch leads as far past the next instruction as its operand says. -/
theorem branch_target (c : Cpu) (m : FlatMemory) :
    past c.pc 2 + signExtend (m.get (past c.pc 1)) = address .rel c m := by
  rw [add_signExtend, address]
  generalize signed (m.get (past c.pc 1)) = d
  apply UInt16.toNat_inj.mp
  simp only [past, UInt16.ofInt, UInt16.toNat_ofNat']
  omega

/-- A branch fetches its displacement whether it is taken or not. -/
theorem branch_flat (flag : Flag) (state : Bool) (c : Cpu) (m : FlatMemory) :
    execute (.branch flag state) ({ c with pc := c.pc + 1 }, m) =
      ((), if c.p.test flag = state then { passed .rel c with pc := address .rel c m }
        else passed .rel c, m) := by
  rw [← branch_target, passed, Addressing.length, past_two, past_one]
  by_cases htest : c.p.test flag = state
  · rw [if_pos htest]
    exact congrFun (if_pos htest) _
  · rw [if_neg htest]
    exact congrFun (if_neg htest) _

/-! ## The stack -/

theorem stackAddress_eq (c : Cpu) : c.stackAddress = stackCell c.sp := by
  rw [Cpu.stackAddress, wordOf_eq_ofNat, stackCell, UInt8.toNat_one, Nat.add_comm]

theorem push_flat (v : UInt8) (c : Cpu) (m : FlatMemory) :
    Exec.push v (c, m) = ((), Matrix.push v (c, m)) := by
  simp only [Exec.push, bind_apply, registers_flat, write_flat, update_flat, stackAddress_eq,
    sub_one_eq_previous, Matrix.push]

theorem pushWord_flat (w : UInt16) (c : Cpu) (m : FlatMemory) :
    Exec.pushWord w (c, m) = ((), Matrix.pushWord w (c, m)) := by
  have hlow : lowByte w = UInt8.ofNat w.toNat := by
    apply UInt8.toNat_inj.mp
    rw [toNat_lowByte, UInt8.toNat_ofNat']
  rw [Exec.pushWord, bind_apply, push_flat, push_flat, hlow, highByte_eq_ofNat]
  rfl

theorem pull_flat (c : Cpu) (m : FlatMemory) :
    pull (c, m) = (pulled c.sp m 1, ({ c with sp := next c.sp }, m)) := by
  simp only [pull, bind_apply, update_flat, registers_flat, read_flat, stackAddress_eq,
    add_one_eq_next]
  rfl

theorem next_eq_above (b : UInt8) : next b = UInt8.ofNat (b.toNat + 1) := rfl

theorem above_above (b : UInt8) (j k : Nat) :
    UInt8.ofNat ((UInt8.ofNat (b.toNat + j)).toNat + k) = UInt8.ofNat (b.toNat + (j + k)) := by
  apply UInt8.toNat_inj.mp
  simp only [UInt8.toNat_ofNat']
  omega

theorem pulled_above (sp : UInt8) (m : FlatMemory) (j k : Nat) :
    pulled (UInt8.ofNat (sp.toNat + j)) m k = pulled sp m (j + k) := by
  rw [pulled, above_above, pulled]

theorem pulledWord_above (sp : UInt8) (m : FlatMemory) (j k : Nat) :
    pulledWord (UInt8.ofNat (sp.toNat + j)) m k = pulledWord sp m (j + k) := by
  simp only [pulledWord, pulled_above, Nat.add_assoc]

/-- What is pulled together lies above the pointer, the low byte first. -/
theorem pullWord_flat (c : Cpu) (m : FlatMemory) :
    pullWord (c, m) =
      (pulledWord c.sp m 1, ({ c with sp := UInt8.ofNat (c.sp.toNat + 2) }, m)) := by
  simp only [pullWord, bind_apply, pull_flat, pure_apply, next_eq_above, pulled_above, above_above,
    wordOf_eq_ofNat, pulledWord]

/-- A status that is pulled gets its unused bit set and its break bit cleared. -/
theorem pulledStatus_eq (b : UInt8) : Status.ofPulled b = pulledStatus b :=
  put_eq_assign ⟨b⟩ .brk false

theorem pushedStatus_eq (c : Cpu) : c.p.softwareCopy = pushedStatus c :=
  congrArg Status.bits (put_eq_assign c.p .brk true)

/-! ## Every instruction -/

/-- Mnemonic and mode of an instruction that `opcode` stands for, where there are any. -/
def entryOf? (opcode : UInt8) : Instruction → Option (Mnemonic × Addressing)
  | .read op mode => some (readName op, .ofMode mode)
  | .store op mode => some (storeName op, .ofMode mode)
  | .modify op mode => some (modifyName op, .ofMode mode)
  | .modifyA op => some (modifyName op, .acc)
  | .storeMasked op mode => some (maskedName op, .ofMode mode)
  | .register op => some (registerName op, .imp)
  | .skip => some (.nop, .imm)
  | .branch flag state => (branchName? flag state).map (·, .rel)
  | .brk => some (.brk, .imp)
  | .jsr => some (.jsr, .abs)
  | .rts => some (.rts, .imp)
  | .rti => some (.rti, .imp)
  | .jmp => some (.jmp, .abs)
  | .jmpIndirect => some (.jmp, .ind)
  | .pha => some (.pha, .imp)
  | .php => some (.php, .imp)
  | .pla => some (.pla, .imp)
  | .plp => some (.plp, .imp)
  | .jam jammed => if jammed = opcode then some (.kil, .imp) else none

/-- Decoding by blocks, rows and columns gives the entries of the table. -/
theorem entryOf?_decode (opcode : UInt8) :
    entryOf? opcode (Instruction.decode opcode) = some (entry opcode) := by
  revert opcode
  decide +kernel

/-- An instruction does what the matrix says of its mnemonic and mode. -/
theorem execute_eq_perform {i : Instruction} {name : Mnemonic} {mode : Addressing} (c : Cpu)
    (m : FlatMemory) (h : entryOf? (m.get c.pc) i = some (name, mode)) :
    execute i ({ c with pc := c.pc + 1 }, m) = ((), perform name mode c m) := by
  cases i with
  | read op mode =>
    cases h
    simp only [execute, operand, bind_apply, locate_eq, read_flat, update_flat,
      perform_readName op (Addressing.ofMode_ne_acc mode)]
  | store op mode =>
    cases h
    simp only [execute, bind_apply, locate_eq, registers_flat, write_flat, perform_storeName]
  | modify op mode =>
    cases h
    simp only [execute, bind_apply, locate_eq, registers_flat, read_flat, update_flat, write_flat,
      perform_modifyName, if_neg (Addressing.ofMode_ne_acc mode)]
  | modifyA op =>
    cases h
    simp only [execute, update_flat, perform_modifyName, if_true, passed, Addressing.length,
      past_one]
  | storeMasked op mode =>
    cases h
    simp only [execute, bind_apply, locate_eq, registers_flat, update_flat, storeMasked_flat,
      perform_maskedName]
  | register op =>
    cases h
    simp only [execute, update_flat, perform_registerName, passed, Addressing.length, past_one]
  | skip =>
    cases h
    simp only [execute, bind_apply, advance_flat, pure_apply, perform, Addressing.length, past_two]
  | branch flag state =>
    obtain ⟨taken, hname, h⟩ := Option.map_eq_some_iff.mp h
    cases h
    rw [perform_branchName? hname, branch_flat, test_eq_flags]
  | brk =>
    cases h
    have hvector : (0xFFFE : UInt16) + 1 = 0xFFFF := by decide
    simp only [execute, bind_apply, advance_flat, registers_flat, pushWord_flat, push_flat,
      Matrix.pushWord, Matrix.push, update_flat, jump, readWord_flat, pushedStatus_eq,
      put_eq_setFlags, perform, past_two, hvector, irqVector, Flags.assign, setFlags, pushedStatus,
      flags]
  | jsr =>
    cases h
    have hback : c.pc + 1 + 1 + 1 - 1 = c.pc + 1 + 1 := UInt16.add_sub_cancel ..
    simp only [execute, bind_apply, fetchWord_flat, registers_flat, pushWord_flat, Matrix.pushWord,
      Matrix.push, jump, update_flat, perform, address, base, past_two, past_one, hback]
  | rts =>
    cases h
    simp only [execute, bind_apply, pullWord_flat, jump, update_flat, perform, past_one]
  | rti =>
    cases h
    simp only [execute, bind_apply, pull_flat, pullWord_flat, jump, update_flat, perform,
      pulledStatus_eq, next_eq_above, pulledWord_above, above_above, Nat.reduceAdd]
  | jmp =>
    cases h
    simp only [execute, bind_apply, fetchWord_flat, jump, update_flat, perform, address, base,
      past_one, past_two]
  | jmpIndirect =>
    cases h
    simp only [execute, bind_apply, fetchWord_flat, readWordInPage, read_flat, pure_apply, jump,
      update_flat, perform, pastInPage_eq, wordOf_get, address, base, past_one, past_two]
  | pha =>
    cases h
    simp only [execute, bind_apply, registers_flat, push_flat, perform, Addressing.length, past_one]
  | php =>
    cases h
    simp only [execute, bind_apply, registers_flat, push_flat, pushedStatus_eq, perform,
      Addressing.length, past_one]
  | pla =>
    cases h
    simp only [execute, bind_apply, pull_flat, update_flat, loadA_eq, perform, Addressing.length,
      past_one]
  | plp =>
    cases h
    simp only [execute, bind_apply, pull_flat, update_flat, pulledStatus_eq, perform,
      Addressing.length, past_one]
  | jam jammed =>
    obtain ⟨rfl, hentry⟩ := Option.ite_none_right_eq_some.mp h
    obtain ⟨rfl, rfl⟩ := Prod.mk.inj (Option.some.inj hentry)
    have hback : c.pc + 1 - 1 = c.pc := UInt16.add_sub_cancel ..
    simp only [execute, update_flat, perform, hback]

/-- One step of the processor is one step of the matrix, jammed or not. -/
theorem step_eq_matrix (c : Cpu) (m : FlatMemory) : Exec.step (c, m) = Matrix.step (c, m) := by
  have hentry := entryOf?_decode (m.get c.pc)
  by_cases jammed : c.halt.isSome
  · rw [Matrix.step, if_pos jammed]
    exact congrFun (if_pos jammed) _
  · rw [Matrix.step, if_neg jammed]
    refine (congrFun (if_neg jammed) _).trans ?_
    rw [bind_apply, fetch_flat, bind_apply, execute_eq_perform c m hentry]
    rfl

/-- A step of a running processor performs what its opcode stands for and counts the cycles. -/
theorem step_eq_perform {c : Cpu} {m : FlatMemory} {opcode : UInt8} {name : Mnemonic}
    {mode : Addressing} (running : c.halt = none) (hopcode : m.get c.pc = opcode)
    (hentry : entry opcode = (name, mode)) :
    (Exec.step (c, m)).2 =
      ((perform name mode c m).1.spend (Timing.cycles opcode), (perform name mode c m).2) := by
  simp only [step_eq_matrix, Matrix.step, running, Option.isSome_none, Bool.false_eq_true, if_false,
    hopcode, hentry]
  rfl

/-! ## Where the program goes on -/

section

variable (c : Cpu) (f : Flags → Flags) (r v : UInt8) (bit : Bool) (m : FlatMemory)

@[simp] theorem setResult_pc : (setResult c v).pc = c.pc := rfl
@[simp] theorem add_pc : (add c v).pc = c.pc := rfl
@[simp] theorem subtract_pc : (subtract c v).pc = c.pc := rfl
@[simp] theorem compare_pc : (compare c r v).pc = c.pc := rfl
@[simp] theorem shiftLeft_pc : (shiftLeft c v bit).2.pc = c.pc := rfl
@[simp] theorem shiftRight_pc : (shiftRight c v bit).2.pc = c.pc := rfl
@[simp] theorem push_pc : (push v (c, m)).1.pc = c.pc := rfl

@[simp] theorem setFlags_totalCycles : (setFlags c f).totalCycles = c.totalCycles := rfl
@[simp] theorem setResult_totalCycles : (setResult c v).totalCycles = c.totalCycles := rfl
@[simp] theorem add_totalCycles : (add c v).totalCycles = c.totalCycles := rfl
@[simp] theorem subtract_totalCycles : (subtract c v).totalCycles = c.totalCycles := rfl
@[simp] theorem compare_totalCycles : (compare c r v).totalCycles = c.totalCycles := rfl

@[simp] theorem shiftLeft_totalCycles : (shiftLeft c v bit).2.totalCycles = c.totalCycles := rfl
@[simp] theorem shiftRight_totalCycles : (shiftRight c v bit).2.totalCycles = c.totalCycles := rfl
@[simp] theorem push_totalCycles : (push v (c, m)).1.totalCycles = c.totalCycles := rfl

end

/-- An instruction that does not redirect the program leads past its own bytes. -/
theorem perform_pc {name : Mnemonic} (mode : Addressing) {c : Cpu} (m : FlatMemory)
    (straight : name.redirects (flags c) = false) :
    (perform name mode c m).1.pc = past c.pc mode.length := by
  cases name <;>
    simp_all [perform, Mnemonic.redirects, apply_ite Prod.fst, apply_ite Cpu.pc, flags]

/-- Cycles are counted by the step, not by the instruction. -/
theorem perform_totalCycles (name : Mnemonic) (mode : Addressing) (c : Cpu) (m : FlatMemory) :
    (perform name mode c m).1.totalCycles = c.totalCycles := by
  cases name <;> simp [perform, apply_ite Prod.fst, apply_ite Cpu.totalCycles, pushWord, push]

/-- **The processor refines the opcode matrix.**  A running processor does in one step what the
matrix says of the opcode at its program counter: to the registers, to the jam record and to every
cell of memory.  The step costs what the opcode does, and it leads past the instruction's bytes
unless the instruction redirects it. -/
theorem step_refines_matrix {c : Cpu} {m : FlatMemory} {name : Mnemonic} {mode : Addressing}
    (running : c.halt = none) (hentry : entry (m.get c.pc) = (name, mode)) :
    ∃ after memory, perform name mode c m = (after, memory) ∧
      Exec.step (c, m) =
        (Timing.cycles (m.get c.pc), (after.spend (Timing.cycles (m.get c.pc)), memory)) ∧
      after.totalCycles = c.totalCycles ∧
      (name.redirects (flags c) = false → after.pc = past c.pc mode.length) := by
  have hstep : Exec.step (c, m) = Matrix.step (c, m) := step_eq_matrix c m
  have hcycles := perform_totalCycles name mode c m
  have hpc := @perform_pc name mode c m
  simp only [Matrix.step, running, Option.isSome_none, Bool.false_eq_true, if_false,
    hentry] at hstep
  rcases hout : perform name mode c m with ⟨after, memory⟩
  rw [hout] at hstep hcycles hpc
  exact ⟨after, memory, rfl, hstep, hcycles, hpc⟩

/-- An increment through an indexed address, fetched from the end of memory and the start of it. -/
theorem step_refines_matrix_wrapped :
    let c : Cpu := { Cpu.powerOn with x := 0x10, pc := 0xFFFE }
    let m := (FlatMemory.ofBytes #[0x80]).set 0xFFFE 0xFE
    c.halt = none ∧ entry (m.get c.pc) = (.inc, .abx) ∧
      (Exec.step (c, m)).1 = 7 ∧ (Exec.step (c, m)).2.1.pc = 1 := by
  have hpast : past 0xFFFE 3 = 1 := rfl
  -- for any processor and memory with these bytes, so that nothing large is evaluated
  have hinc (c : Cpu) (m : FlatMemory) (hhalt : c.halt = none) (hpc : c.pc = 0xFFFE)
      (hopcode : m.get c.pc = 0xFE) :
      c.halt = none ∧ entry (m.get c.pc) = (.inc, .abx) ∧
        (Exec.step (c, m)).1 = 7 ∧ (Exec.step (c, m)).2.1.pc = 1 := by
    have hentry : entry (m.get c.pc) = (.inc, .abx) := by
      rw [hopcode]
      rfl
    have hcycles : Timing.cycles (m.get c.pc) = 7 := by
      rw [hopcode]
      rfl
    obtain ⟨after, memory, -, hstep, -, hnext⟩ := step_refines_matrix hhalt hentry
    rw [hpc] at hnext
    refine ⟨hhalt, hentry, ?_, ?_⟩
    · rw [hstep, hcycles]
    · rw [hstep]
      exact (hnext rfl).trans hpast
  exact hinc _ _ rfl rfl (FlatMemory.get_set_self ..)

end Matrix

end Famicom
