import Famicom.Proofs.Cartridge.Saving
import Famicom.Proofs.Cartridge.Translation
import Mathlib.Logic.Function.Iterate

/-!
# What operations do to the board

A board sees little of what is done with its cartridge: writes outside the work RAM, the fetches of
the picture unit, scanlines and processor cycles.  Nothing that it shows depends on the contents of
the memory behind it, so what becomes of it can be told from the operations alone.

* `Cartridge.board_run` — the board after a run of operations that puts no saved state in.
-/

namespace Famicom

/-- The operation puts a saved state into the cartridge. -/
def Cartridge.Operation.restores : Operation → Bool
  | .act (.restore _) => true
  | _ => false

/-- The board after an operation that puts no saved state in. -/
def Board.operated (board : Board) : Cartridge.Operation → Board
  | .act (.write addr value) =>
    if Cartridge.isWorkRam addr then board else board.write addr value
  | .act (.observe addr) => board.observe addr
  | .act .clockScanline => board.clockScanline
  | .act (.ticks cycles) => tick^[cycles] board
  | _ => board

/-- A board sees every write that does not go to the work RAM. -/
theorem Board.operated_write (board : Board) {addr : UInt16} (h : Cartridge.isWorkRam addr = false)
    (value : UInt8) : board.operated (.act (.write addr value)) = board.write addr value := by
  show (if Cartridge.isWorkRam addr then _ else _) = _
  rw [h, if_neg Bool.false_ne_true]

/-- A board sees every write through the ROM window. -/
theorem Board.operated_window (board : Board) {addr : UInt16} (h : Image.romStart ≤ addr)
    (value : UInt8) : board.operated (.act (.write addr value)) = board.write addr value :=
  board.operated_write (Cartridge.isWorkRam_eq_false h) value

/-- A write that does nothing to a board does nothing when it goes to the work RAM instead. -/
theorem Board.operated_write_of_eq {board : Board} {addr : UInt16} {value : UInt8}
    (h : board.write addr value = board) : board.operated (.act (.write addr value)) = board := by
  show (if Cartridge.isWorkRam addr then _ else _) = _
  rw [h, ite_self]

/-- All boards but one have their registers behind the ROM window. -/
theorem Board.write_eq {board : Board} (hboard : ∀ b, board ≠ .ffe b) (addr : UInt16)
    (value : UInt8) :
    board.write addr value =
      if addr < Image.romStart then board else board.writeWindow addr value := by
  cases board with
  | ffe b => exact absurd rfl (hboard b)
  | _ => rfl

/-- Those boards see nothing of the writes below it. -/
theorem Board.operated_write_eq {board : Board} (hboard : ∀ b, board ≠ .ffe b) (addr : UInt16)
    (value : UInt8) :
    board.operated (.act (.write addr value)) =
      if addr < Image.romStart then board else board.writeWindow addr value := by
  rw [← write_eq hboard]
  by_cases hlow : addr < Image.romStart
  · have hsame : board.write addr value = board := (write_eq hboard addr value).trans (if_pos hlow)
    rw [operated_write_of_eq hsame, hsame]
  · exact operated_window board (UInt16.not_lt.mp hlow) value

namespace Cartridge

theorem board_ofImage {i : Image} {made : Cartridge} (h : ofImage i = .ok made) :
    made.board = .powerOn i := by
  obtain ⟨_, rfl⟩ := ofImage_eq_ok_iff.mp h
  rfl

theorem board_ticks (cycles : Nat) (c : Cartridge) :
    (c.ticks cycles).board = Board.tick^[cycles] c.board := by
  induction cycles generalizing c with
  | zero => rfl
  | succ n ih => exact ih c.tick

/-- A board becomes what the operation makes of it, whatever the memory behind it holds. -/
theorem board_operate (c : Cartridge) {op : Operation} (h : op.restores = false) :
    (c.operate op).2.board = c.board.operated op := by
  cases op with
  | act a =>
    cases a with
    | write addr value =>
      show (c.write addr value).board = if isWorkRam addr then _ else _
      unfold write
      split
      · split <;> rfl
      · rfl
    | chrWrite addr value =>
      show (c.chrWrite addr value).board = c.board
      unfold chrWrite
      split <;> rfl
    | ticks cycles => exact c.board_ticks cycles
    | restore s => cases h
    | observe addr => rfl
    | clockScanline => rfl
  | _ => rfl

/-- Operations one after the other, in two parts. -/
theorem run_append (before later : List Operation) (c : Cartridge) :
    (c.run (before ++ later)).2 = ((c.run before).2.run later).2 := by
  induction before generalizing c with
  | nil => rfl
  | cons op rest ih => exact ih (c.operate op).2

/-- The board after a run of operations that puts no saved state in. -/
theorem board_run {ops : List Operation} (h : ∀ op ∈ ops, op.restores = false) (c : Cartridge) :
    (c.run ops).2.board = ops.foldl Board.operated c.board := by
  induction ops generalizing c with
  | nil => rfl
  | cons op rest ih =>
    obtain ⟨hop, hrest⟩ := List.forall_mem_cons.mp h
    show ((c.operate op).2.run rest).2.board = rest.foldl Board.operated (c.board.operated op)
    rw [ih hrest, c.board_operate hop]

/-! ## Writes to the board -/

/-- Write values at addresses, one after the other. -/
def Operation.writes (writes : List (UInt16 × UInt8)) : List Operation :=
  writes.map fun w => .act (.write w.1 w.2)

/-- A write outside the work RAM changes nothing but the board. -/
theorem write_board (c : Cartridge) {addr : UInt16} (h : isWorkRam addr = false) (value : UInt8) :
    c.write addr value = { c with board := c.board.operated (.act (.write addr value)) } := by
  show (if isWorkRam addr then _ else _) = { c with board := if isWorkRam addr then _ else _ }
  rw [h, if_neg Bool.false_ne_true, if_neg Bool.false_ne_true]

/-- Writes outside the work RAM change the board and nothing else. -/
theorem run_writes {writes : List (UInt16 × UInt8)} (h : ∀ w ∈ writes, isWorkRam w.1 = false)
    (c : Cartridge) :
    (c.run (Operation.writes writes)).2 =
      { c with board := (Operation.writes writes).foldl Board.operated c.board } := by
  induction writes generalizing c with
  | nil => rfl
  | cons w rest ih =>
    obtain ⟨hw, hrest⟩ := List.forall_mem_cons.mp h
    show ((c.write w.1 w.2).run (Operation.writes rest)).2 = _
    rw [ih hrest, c.write_board hw]
    rfl

end Cartridge

end Famicom
