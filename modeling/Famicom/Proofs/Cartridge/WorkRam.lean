import Famicom.Proofs.Cartridge.ScanlineCounter
import Famicom.Proofs.Cartridge.SerialPort
import Mathlib.Tactic.SplitIfs

/-!
# Work RAM

MMC1 and MMC3 can shut their work RAM off, and MMC3 can lock it against writes.  The bits that
decide about it lie in bank registers and change as the cartridge is played.  `RamGate` is what
decides, told from the writes alone; the writes that it lets through are the stores of a history,
and what the processor reads is the last of them at its address.

* `Guards.operated` — one operation keeps the board and the gate together.
* `Remembers.operate` — one operation keeps the work RAM and the stores together.
* `reads_last_store` — a cartridge from power-on, however it is played.
-/

namespace Famicom

/-! ## The gate -/

/-- What decides whether the processor gets at the work RAM: on most boards nothing, on MMC1 the
program bank register behind the serial port, on MMC3 two bits of a register of their own. -/
inductive RamGate
  | unguarded
  | serial (port : SerialPort)
  | switched (enabled locked : Bool)

namespace RamGate

/-- The gate of a cartridge that was made from an image. -/
def powerOn (i : Image) : RamGate :=
  match i.mapper with
  | 1 => .serial .powerOn
  | 4 => .switched true false
  | _ => .unguarded

/-- The processor can read work RAM.  On MMC1 the top bit of the register shuts it off. -/
def readable : RamGate → Bool
  | unguarded => true
  | serial port => !port.prgBank.msb
  | switched enabled _ => enabled

/-- The processor can write work RAM. -/
def writable : RamGate → Bool
  | unguarded => true
  | serial port => !port.prgBank.msb
  | switched enabled locked => enabled && !locked

/-- The address selects the register of MMC3 that has the two bits. -/
def isSwitch (addr : UInt16) : Bool := 0xA000 ≤ addr && addr < 0xC000 && addr &&& 1 != 0

/-- The gate after an operation on its cartridge; only writes reach it. -/
def operated : RamGate → Cartridge.Operation → RamGate
  | unguarded, _ => .unguarded
  | serial port, op => .serial (port.operated op)
  | switched enabled locked, .act (.write addr value) =>
    if isSwitch addr then .switched (hasBits value 0x80) (hasBits value 0x40)
    else .switched enabled locked
  | switched enabled locked, _ => .switched enabled locked

/-- The gate after some operations. -/
def after (gate : RamGate) (past : List Cartridge.Operation) : RamGate := past.foldl operated gate

/-- The address and the value of a write to work RAM that the gate lets through. -/
def store? (gate : RamGate) : Cartridge.Operation → Option (UInt16 × UInt8)
  | .act (.write addr value) =>
    if Cartridge.isWorkRam addr && gate.writable then some (addr, value) else none
  | _ => none

/-- The stores among operations. -/
def stores (gate : RamGate) : List Cartridge.Operation → List (UInt16 × UInt8)
  | [] => []
  | op :: rest => (gate.store? op).toList ++ (gate.operated op).stores rest

/-- Only writes to the work RAM are stores. -/
theorem isWorkRam_of_store? {gate : RamGate} {op : Cartridge.Operation} {addr : UInt16}
    {value : UInt8} (h : gate.store? op = some (addr, value)) :
    Cartridge.isWorkRam addr = true := by
  unfold store? at h
  split at h
  · split at h
    · next hopen =>
      cases h
      exact (Bool.and_eq_true_iff.mp hopen).1
    · cases h
  · cases h

/-- One more operation adds the store that the gate lets through by then, if any. -/
theorem stores_concat (gate : RamGate) (past : List Cartridge.Operation)
    (op : Cartridge.Operation) :
    gate.stores (past ++ [op]) = gate.stores past ++ ((gate.after past).store? op).toList := by
  induction past generalizing gate with
  | nil => exact List.append_nil _
  | cons first rest ih =>
    show _ ++ (gate.operated first).stores (rest ++ [op]) = _
    rw [ih, ← List.append_assoc]
    rfl

theorem after_concat (gate : RamGate) (past : List Cartridge.Operation)
    (op : Cartridge.Operation) :
    gate.after (past ++ [op]) = (gate.after past).operated op := List.foldl_concat ..

end RamGate

/-- The value of the last store to an address, zero when there was none. -/
def lastStored (stores : List (UInt16 × UInt8)) (addr : UInt16) : UInt8 :=
  ((stores.filter (·.1 = addr)).getLast?.map (·.2)).getD 0

/-- A store hides the earlier ones at its address, and no others. -/
theorem lastStored_concat (stores : List (UInt16 × UInt8)) (store : UInt16 × UInt8)
    (addr : UInt16) :
    lastStored (stores ++ [store]) addr =
      if store.1 = addr then store.2 else lastStored stores addr := by
  unfold lastStored
  rw [List.filter_append]
  by_cases h : store.1 = addr <;> simp [h]

/-! ## The board has the bits -/

namespace Board

/-- The board decides about its work RAM. -/
def guardsRam : Board → Bool
  | mmc1 _ => true
  | mmc3 _ => true
  | _ => false

/-- Writes keep a board as it is wired. -/
theorem guardsRam_write (board : Board) (addr : UInt16) (value : UInt8) :
    (board.write addr value).guardsRam = board.guardsRam := by
  cases board with
  | ffe b => rfl
  | fixed b | discrete b | mmc1 b | mmc3 b | mmc2 b | wide b =>
    rw [write_eq (by simp)]
    split <;> rfl

theorem guardsRam_ticks (cycles : Nat) (board : Board) :
    (tick^[cycles] board).guardsRam = board.guardsRam := by
  induction cycles generalizing board with
  | zero => rfl
  | succ n ih =>
    have htick : board.tick.guardsRam = board.guardsRam := by cases board <;> rfl
    exact (ih board.tick).trans htick

/-- What play does to a board does not make it another. -/
theorem guardsRam_operated (board : Board) (op : Cartridge.Operation) :
    (board.operated op).guardsRam = board.guardsRam := by
  cases op with
  | act a =>
    cases a with
    | write addr value =>
      show (if Cartridge.isWorkRam addr then board else board.write addr value).guardsRam = _
      split
      · rfl
      · exact board.guardsRam_write addr value
    | observe addr => cases board <;> rfl
    | clockScanline => cases board <;> rfl
    | ticks cycles => exact guardsRam_ticks cycles board
    | _ => rfl
  | _ => rfl

namespace Mmc3.Registers

/-- One write sets both bits of the work RAM or leaves both. -/
theorem switches_write (r : Registers) (addr : UInt16) (value : UInt8) :
    RamGate.switched (r.write addr value).workRamEnabled (r.write addr value).workRamProtected =
      (RamGate.switched r.workRamEnabled r.workRamProtected).operated
        (.act (.write addr value)) := by
  show _ = if RamGate.isSwitch addr then _ else _
  unfold RamGate.isSwitch write
  -- below the register, at it by the parity of the address, and above it
  by_cases hA : addr < 0xA000
  · have hlow : ¬0xA000 ≤ addr := UInt16.not_le.mpr hA
    rw [if_pos hA, decide_eq_false hlow]
    split <;> rfl
  have hfrom : 0xA000 ≤ addr := UInt16.not_lt.mp hA
  rw [if_neg hA, decide_eq_true hfrom]
  by_cases hC : addr < 0xC000
  · rw [if_pos hC, decide_eq_true hC]
    cases heven : addr &&& 1 == 0 with
    | true =>
      rw [bne, heven]
      rfl
    | false =>
      rw [bne, heven]
      rfl
  · rw [if_neg hC, decide_eq_false hC, Bool.and_false, Bool.false_and, if_neg Bool.false_ne_true]
    split_ifs <;> rfl

/-- The register lies in the ROM window. -/
theorem switches_operated (r : Registers) (op : Cartridge.Operation) :
    RamGate.switched (r.operated op).workRamEnabled (r.operated op).workRamProtected =
      (RamGate.switched r.workRamEnabled r.workRamProtected).operated op := by
  cases op with
  | act a =>
    cases a with
    | write addr value =>
      rw [← switches_write]
      show RamGate.switched (if addr < Image.romStart then r else r.write addr value).workRamEnabled
        (if addr < Image.romStart then r else r.write addr value).workRamProtected = _
      split
      · next hlow =>
        have hA : addr < 0xA000 := UInt16.lt_trans hlow (by decide)
        unfold write
        rw [if_pos hA]
        split <;> rfl
      · rfl
    | observe addr =>
      show RamGate.switched (r.observe addr).workRamEnabled (r.observe addr).workRamProtected = _
      unfold observe
      dsimp only
      split_ifs <;> rfl
    | _ => rfl
  | _ => rfl

end Mmc3.Registers

end Board

namespace RamGate

/-- The gate decides as the board does. -/
inductive Guards : RamGate → Board → Prop
  | unguarded {board : Board} (h : board.guardsRam = false) : Guards .unguarded board
  | serial {port : SerialPort} {b : Board.Mmc1} (h : b.Shown port) : Guards (.serial port) (.mmc1 b)
  | switched (b : Board.Mmc3) :
      Guards (.switched b.regs.workRamEnabled b.regs.workRamProtected) (.mmc3 b)

/-- Gate and board start together. -/
theorem guards_powerOn (i : Image) : Guards (.powerOn i) (.powerOn i) := by
  unfold powerOn
  split
  · next h =>
    rw [Board.powerOn, h]
    exact .serial Board.Mmc1.shown_powerOn
  · next h =>
    rw [Board.powerOn, h]
    exact .switched (.powerOn i)
  · next hserial hswitched =>
    refine .unguarded ?_
    unfold Board.powerOn
    split <;> first | rfl | contradiction

variable {gate : RamGate} {board : Board}

/-- The program bank register has five bits, the top one of which is bit 4. -/
theorem workRamEnabled_of_shown {port : SerialPort} {b : Board.Mmc1} (h : b.Shown port) :
    b.workRamEnabled = !port.prgBank.msb := by
  have hbit : ∀ v : UInt8, v.toNat < 32 → hasBits v 0x10 = decide (16 ≤ v.toNat) := by
    decide +kernel
  have hlt : b.prgBank.toNat < 32 := h.prgBank ▸ port.prgBank.isLt
  rw [Board.Mmc1.workRamEnabled, hbit _ hlt, h.prgBank, BitVec.msb_eq_decide]

/-- The board lets the processor read just if the gate does. -/
theorem Guards.readable_eq (h : Guards gate board) : board.workRamReadable = gate.readable := by
  cases h with
  | unguarded h =>
    cases board with
    | mmc1 b | mmc3 b => cases h
    | fixed b | discrete b | mmc2 b | wide b | ffe b => rfl
  | serial h => exact workRamEnabled_of_shown h
  | switched b => rfl

/-- It lets it write just if the gate does. -/
theorem Guards.writable_eq (h : Guards gate board) : board.workRamWritable = gate.writable := by
  cases h with
  | unguarded h =>
    cases board with
    | mmc1 b | mmc3 b => cases h
    | fixed b | discrete b | mmc2 b | wide b | ffe b => rfl
  | serial h => exact workRamEnabled_of_shown h
  | switched b => rfl

/-- **One operation.**  Short of putting a saved state in, it keeps the board and the gate
together. -/
theorem Guards.operated (h : Guards gate board) (op : Cartridge.Operation) :
    Guards (gate.operated op) (board.operated op) := by
  cases h with
  | unguarded h => exact .unguarded ((board.guardsRam_operated op).trans h)
  | serial h =>
    obtain ⟨b', hboard, hshown⟩ := h.operated op
    rw [hboard]
    exact .serial hshown
  | switched b =>
    rw [b.operated_eq, ← b.regs.switches_operated]
    exact .switched { b with regs := b.regs.operated op }

end RamGate

/-! ## The memory behind the gate -/

namespace Cartridge

open RamGate

/-- The operation gets at the work RAM only through the gate: the host stores nothing there, and no
saved state is put in.  A state that is refused does no harm. -/
def Plays (c : Cartridge) : Operation → Prop
  | .putWorkRam _ _ => False
  | .act (.restore s) => c.answer (.restore s) ≠ .done
  | _ => True

/-- Each operation of a run does, at its point of the run. -/
def PlaysAll : List Operation → Cartridge → Prop
  | [], _ => True
  | op :: rest, c => c.Plays op ∧ PlaysAll rest (c.operate op).2

/-- A state that is refused changes nothing. -/
theorem acted_of_refused {c : Cartridge} {s : State} (h : c.answer (.restore s) ≠ .done) :
    c.acted (.restore s) = c := by
  cases hrestore : c.restore s with
  | ok restored =>
    simp only [answer, hrestore] at h
    exact absurd rfl h
  | error e => simp only [acted, hrestore]

theorem operated_restore (gate : RamGate) (s : State) :
    gate.operated (.act (.restore s)) = gate := by
  cases gate <;> rfl

section

variable {gate : RamGate} {c : Cartridge} {op : Operation}

/-- An operation keeps the cartridge and the gate together. -/
theorem guards_operate (hgate : gate.Guards c.board) (h : c.Plays op) :
    (gate.operated op).Guards (c.operate op).2.board := by
  by_cases hop : op.restores = false
  · rw [c.board_operate hop]
    exact hgate.operated op
  · cases op with
    | act a =>
      cases a with
      | restore s =>
        show (gate.operated _).Guards (c.acted (.restore s)).board
        rw [acted_of_refused h, operated_restore]
        exact hgate
      | _ => exact absurd rfl hop
    | _ => exact absurd rfl hop

theorem workRam_chrWrite (c : Cartridge) (addr : UInt16) (value : UInt8) :
    (c.chrWrite addr value).workRam = c.workRam := by
  unfold chrWrite
  split <;> rfl

theorem workRam_ticks (cycles : Nat) (c : Cartridge) : (c.ticks cycles).workRam = c.workRam := by
  induction cycles generalizing c with
  | zero => rfl
  | succ n ih => exact ih c.tick

/-- All that an operation does to work RAM is to store what the gate lets through. -/
theorem workRam_operate (hgate : gate.Guards c.board) (h : c.Plays op) :
    (c.operate op).2.workRam =
      match gate.store? op with
      | some (addr, value) => c.workRam.set (workRamIndex addr) value
      | none => c.workRam := by
  cases op with
  | act a =>
    cases a with
    | write addr value =>
      have hstore : gate.store? (.act (.write addr value)) =
          if isWorkRam addr && gate.writable then some (addr, value) else none := rfl
      rw [hstore, ← hgate.writable_eq]
      show (c.write addr value).workRam = _
      unfold write
      cases isWorkRam addr with
      | true => cases c.board.workRamWritable <;> rfl
      | false => rfl
    | chrWrite addr value => exact c.workRam_chrWrite addr value
    | ticks cycles => exact workRam_ticks cycles c
    | restore s => exact congrArg Cartridge.workRam (acted_of_refused h)
    | observe addr => rfl
    | clockScanline => rfl
  | putWorkRam index value => exact h.elim
  | _ => rfl

end

/-- After a history the gate decides as the board does, and the work RAM holds what was last stored
at each address. -/
structure Remembers (gate : RamGate) (past : List Operation) (c : Cartridge) : Prop where
  size : 0x2000 ≤ c.workRam.size
  guards : (gate.after past).Guards c.board
  stored : ∀ addr, isWorkRam addr = true →
    c.workRam.get (workRamIndex addr) = lastStored (gate.stores past) addr

/-- A fresh cartridge has blank work RAM, and nothing was stored. -/
theorem remembers_ofImage {i : Image} {made : Cartridge} (h : ofImage i = .ok made) :
    Remembers (.powerOn i) [] made := by
  obtain ⟨_, rfl⟩ := ofImage_eq_ok_iff.mp h
  refine ⟨?_, guards_powerOn i, fun addr _ => Arena.get_zeros _ _⟩
  show 0x2000 ≤ (Arena.zeros (max i.workRamSize Image.minWorkRam)).size
  rw [Arena.size_zeros]
  exact Nat.le_trans (Nat.le_max_right i.workRamSize 0x2000) (Nat.le_max_left ..)

/-- The window is as large as the least work RAM. -/
theorem workRamIndex_lt {addr : UInt16} (h : isWorkRam addr = true) :
    workRamIndex addr < 0x2000 := by
  obtain ⟨-, hto⟩ := Bool.and_eq_true_iff.mp h
  have hlt : addr.toNat < 0x8000 := UInt16.lt_iff_toNat_lt.mp (of_decide_eq_true hto)
  unfold workRamIndex
  omega

/-- No two addresses share a byte of work RAM. -/
theorem workRamIndex_inj {a b : UInt16} (ha : isWorkRam a = true) (hb : isWorkRam b = true) :
    workRamIndex a = workRamIndex b ↔ a = b := by
  have hfrom {addr : UInt16} (h : isWorkRam addr = true) : 0x6000 ≤ addr.toNat :=
    UInt16.le_iff_toNat_le.mp (of_decide_eq_true (Bool.and_eq_true_iff.mp h).1)
  have hfa := hfrom ha
  have hfb := hfrom hb
  rw [← UInt16.toNat_inj]
  unfold workRamIndex
  omega

section

variable {gate : RamGate} {past : List Operation} {c : Cartridge}

/-- **One operation.** -/
theorem Remembers.operate (hpast : Remembers gate past c) {op : Operation} (h : c.Plays op) :
    Remembers gate (past ++ [op]) (c.operate op).2 := by
  have hram := workRam_operate hpast.guards h
  have hguards := guards_operate hpast.guards h
  rw [← RamGate.after_concat] at hguards
  cases hstore : (gate.after past).store? op with
  | none =>
    rw [hstore] at hram
    refine ⟨?_, hguards, fun addr haddr => ?_⟩
    · rw [hram]
      exact hpast.size
    · rw [hram, RamGate.stores_concat, hstore, hpast.stored addr haddr]
      exact congrArg (lastStored · addr) (List.append_nil _).symm
  | some store =>
    obtain ⟨at', value⟩ := store
    rw [hstore] at hram
    have hat : isWorkRam at' = true := RamGate.isWorkRam_of_store? hstore
    refine ⟨?_, hguards, fun addr haddr => ?_⟩
    · rw [hram, Arena.size_set]
      exact hpast.size
    · -- indices of the window do not wrap, so that a store hides its own address only
      have hlt {addr : UInt16} (h : isWorkRam addr = true) : workRamIndex addr < c.workRam.size :=
        Nat.lt_of_lt_of_le (workRamIndex_lt h) hpast.size
      rw [hram, Arena.get_set, Nat.mod_eq_of_lt (hlt haddr), Nat.mod_eq_of_lt (hlt hat),
        RamGate.stores_concat, hstore, Option.toList_some, lastStored_concat,
        hpast.stored addr haddr]
      simp only [workRamIndex_inj haddr hat, eq_comm]

/-- A whole run, by induction over it with the history before it. -/
theorem Remembers.run (hpast : Remembers gate past c) {ops : List Operation}
    (h : c.PlaysAll ops) : Remembers gate (past ++ ops) (c.run ops).2 := by
  induction ops generalizing past c with
  | nil =>
    rw [List.append_nil]
    exact hpast
  | cons op rest ih =>
    have hstep := ih (hpast.operate h.1) h.2
    rw [List.append_assoc] at hstep
    exact hstep

/-- What the processor reads, told from the history. -/
theorem Remembers.read (hpast : Remembers gate past c) {addr : UInt16}
    (haddr : isWorkRam addr = true) :
    c.read addr = if (gate.after past).readable then lastStored (gate.stores past) addr else 0 := by
  rw [Cartridge.read, if_pos haddr, hpast.guards.readable_eq, hpast.stored addr haddr]

end

/-- **Work RAM.**  However a cartridge is played from power-on, the processor reads zero from work
RAM while the gate shuts it off, and else what was last stored at that address through the gate, or
zero when nothing was.  And nothing but such a store changes what is in the work RAM. -/
theorem reads_last_store {i : Image} {made : Cartridge} (hmade : ofImage i = .ok made)
    {ops : List Operation} (hops : made.PlaysAll ops) :
    let c := (made.run ops).2
    let gate := (RamGate.powerOn i).after ops
    (∀ addr, isWorkRam addr = true → c.read addr =
      if gate.readable then lastStored ((RamGate.powerOn i).stores ops) addr else 0) ∧
    (∀ op, c.Plays op → gate.store? op = none → (c.operate op).2.workRam = c.workRam) := by
  intro c gate
  have hall : Remembers (.powerOn i) ops c := (remembers_ofImage hmade).run hops
  refine ⟨fun addr haddr => hall.read haddr, fun op hop hnone => ?_⟩
  have hram := workRam_operate hall.guards hop
  rw [hnone] at hram
  exact hram

/-- MMC3 keeps a byte while its work RAM is locked, while a saved state of another board is refused,
and while the work RAM is shut off. -/
theorem reads_last_store_locked :
    let ops : List Operation := Operation.writes [(0x6123, 7), (0xA001, 0xC0), (0x6123, 8)] ++
      [.act (.restore ⟨.fixed, #[], #[]⟩)] ++ Operation.writes [(0xBFFF, 0x00), (0x6123, 9)]
    ∃ made, ofImage { copier with mapper := 4 } = .ok made ∧
      (made.run ops).2.read 0x6123 = 0 ∧
      (made.run (ops ++ Operation.writes [(0xA001, 0x80)])).2.read 0x6123 = 7 := by
  intro ops
  have hrefused {c : Cartridge} {b : Board.Mmc3} (h : c.board = .mmc3 b) :
      c.Plays (.act (.restore ⟨.fixed, #[], #[]⟩)) := by
    simp [Plays, answer, restore, h, Board.install?]
  refine ⟨_, rfl, ?_, ?_⟩
  · refine ((reads_last_store (i := { copier with mapper := 4 }) rfl ?_).1 0x6123 rfl).trans ?_
    · exact ⟨trivial, trivial, trivial, hrefused rfl, trivial, trivial, trivial⟩
    · decide
  · refine ((reads_last_store (i := { copier with mapper := 4 }) rfl ?_).1 0x6123 rfl).trans ?_
    · exact ⟨trivial, trivial, trivial, hrefused rfl, trivial, trivial, trivial, trivial⟩
    · decide

end Cartridge

end Famicom
