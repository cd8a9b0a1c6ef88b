import Famicom.Cartridge.Basic

/-!
# Playing with a cartridge

`Cartridge.Act` lists everything that a running console does to a cartridge, and `Cartridge.acted`
does it.  Only the board's registers and the RAM change.

* `ofImage_eq_ok_iff` — the cartridge that is made from an image.
* `kin_acted`, `Kin.restore_eq_ok` — a state that could be restored before can be restored after,
  and leads to the same cartridge.
* `acted_prg` — program ROM keeps its contents.
* `Reworked` — the same when program ROM may be patched as well.
* `prgOffset?_lt` — an address shows a byte that the program ROM has.
-/

namespace Famicom.Cartridge

/-- Something that a running console does to a cartridge. -/
inductive Act
  | write (addr : UInt16) (value : UInt8)
  | chrWrite (addr : UInt16) (value : UInt8)
  | observe (addr : UInt16)
  | clockScanline
  | ticks (cycles : Nat)
  | restore (s : State)

/-- The cartridge after an act.  A state that does not fit changes nothing. -/
def acted (c : Cartridge) : Act → Cartridge
  | .write addr value => c.write addr value
  | .chrWrite addr value => c.chrWrite addr value
  | .observe addr => c.observe addr
  | .clockScanline => c.clockScanline
  | .ticks cycles => c.ticks cycles
  | .restore s =>
    match c.restore s with
    | .ok restored => restored
    | .error _ => c

/-! ## Making a cartridge -/

/-- An image makes a cartridge just if it has program ROM, and then its board is fresh, its memories
are those of the image and its work RAM is blank. -/
theorem ofImage_eq_ok_iff {i : Image} {c : Cartridge} :
    ofImage i = .ok c ↔ ∃ h : 0 < i.prg.size, c = {
      board := .powerOn i
      prg := ⟨i.prg, h⟩
      chr := .ofBytes i.chr Image.chrRamSize
      chrIsRam := i.chrIsRam
      workRam := .zeros (max i.workRamSize Image.minWorkRam) } := by
  unfold ofImage
  constructor
  · intro h
    split at h
    -- the board and the memories are made alike in both; only an empty ROM is refused
    · next hprg =>
      cases h
      exact ⟨hprg, rfl⟩
    · cases h
  · rintro ⟨hprg, rfl⟩
    rw [dif_pos hprg]
    rfl

/-! ## What play leaves alone -/

/-- Two cartridges that differ only in what play can change: the same saved states fit both. -/
structure Kin (c d : Cartridge) : Prop where
  registers : ∀ r, c.board.install? r = d.board.install? r
  prg : c.prg = d.prg
  chrIsRam : c.chrIsRam = d.chrIsRam
  workRam : c.workRam.size = d.workRam.size
  chrRam : c.chr.size = d.chr.size
  chrRom : ¬c.chrIsRam → c.chr = d.chr

theorem Kin.refl (c : Cartridge) : Kin c c := ⟨fun _ => rfl, rfl, rfl, rfl, rfl, fun _ => rfl⟩

theorem Kin.symm {c d : Cartridge} (h : Kin c d) : Kin d c where
  registers r := (h.registers r).symm
  prg := h.prg.symm
  chrIsRam := h.chrIsRam.symm
  workRam := h.workRam.symm
  chrRam := h.chrRam.symm
  chrRom hrom := (h.chrRom (h.chrIsRam ▸ hrom)).symm

theorem Kin.trans {c d e : Cartridge} (h : Kin c d) (k : Kin d e) : Kin c e where
  registers r := (h.registers r).trans (k.registers r)
  prg := h.prg.trans k.prg
  chrIsRam := h.chrIsRam.trans k.chrIsRam
  workRam := h.workRam.trans k.workRam
  chrRam := h.chrRam.trans k.chrRam
  chrRom hrom := (h.chrRom hrom).trans (k.chrRom (h.chrIsRam ▸ hrom))

/-- A board with other registers takes the same registers. -/
theorem kin_board {c : Cartridge} {board : Board}
    (h : ∀ r, c.board.install? r = board.install? r) : Kin c { c with board } :=
  ⟨h, rfl, rfl, rfl, rfl, fun _ => rfl⟩

/-- Writes by the processor reach registers and work RAM only. -/
theorem kin_write (c : Cartridge) (addr : UInt16) (value : UInt8) : Kin c (c.write addr value) := by
  unfold write
  split
  · split
    · exact ⟨fun _ => rfl, rfl, rfl, (Arena.size_set ..).symm, rfl, fun _ => rfl⟩
    · exact .refl c
  · exact kin_board fun r => (c.board.install?_write addr value r).symm

/-- Pattern memory changes only where it is RAM, and keeps its size. -/
theorem kin_chrWrite (c : Cartridge) (addr : UInt16) (value : UInt8) :
    Kin c (c.chrWrite addr value) := by
  unfold chrWrite
  split
  · next hram =>
    exact ⟨fun _ => rfl, rfl, rfl, rfl, (Arena.size_set ..).symm, fun hrom => absurd hram hrom⟩
  · exact .refl c

theorem kin_ticks (cycles : Nat) (c : Cartridge) : Kin c (c.ticks cycles) := by
  induction cycles generalizing c with
  | zero => exact .refl c
  | succ n ih =>
    have htick : Kin c c.tick := kin_board fun r => (c.board.install?_tick r).symm
    exact htick.trans (ih c.tick)

/-- Restoring succeeds just if registers and memory fit, and changes nothing else. -/
theorem restore_eq_ok_iff {c d : Cartridge} {s : State} :
    c.restore s = .ok d ↔
      ∃ board workRam chr, c.board.install? s.registers = some board ∧
        c.workRam.replace? s.workRam = some workRam ∧
        (if c.chrIsRam then c.chr.replace? s.chrRam else some c.chr) = some chr ∧
        d = { c with board, workRam, chr } := by
  unfold restore
  constructor
  · intro h
    -- the three checks in their order; a cartridge with pattern ROM has no third one
    cases hboard : c.board.install? s.registers with
    | none =>
      simp only [hboard] at h
      cases h
    | some board =>
      cases hwork : c.workRam.replace? s.workRam with
      | none =>
        simp only [hboard, hwork] at h
        cases h
      | some workRam =>
        simp only [hboard, hwork] at h
        by_cases hram : c.chrIsRam
        · rw [if_pos hram] at h
          cases hchr : c.chr.replace? s.chrRam with
          | none =>
            simp only [hchr] at h
            cases h
          | some chr =>
            simp only [hchr] at h
            cases h
            exact ⟨board, workRam, chr, rfl, rfl, if_pos hram ▸ rfl, rfl⟩
        · rw [if_neg hram] at h
          cases h
          exact ⟨board, workRam, c.chr, rfl, rfl, if_neg hram, rfl⟩
  · rintro ⟨board, workRam, chr, hboard, hwork, hchr, rfl⟩
    simp only [hboard, hwork]
    by_cases hram : c.chrIsRam
    · rw [if_pos hram] at hchr ⊢
      simp only [hchr]
      rfl
    · rw [if_neg hram] at hchr ⊢
      cases hchr
      rfl

/-- A state that is put in brings registers of the same kind and memories of the same sizes. -/
theorem kin_restore {c restored : Cartridge} {s : State} (h : c.restore s = .ok restored) :
    Kin c restored := by
  obtain ⟨board, workRam, chr, hboard, hwork, hchr, rfl⟩ := restore_eq_ok_iff.mp h
  refine ⟨fun r => (Board.install?_install? hboard r).symm, rfl, rfl,
    (Arena.size_replace? hwork).symm, ?_, ?_⟩
  · by_cases hram : c.chrIsRam
    · rw [if_pos hram] at hchr
      exact (Arena.size_replace? hchr).symm
    · rw [if_neg hram] at hchr
      exact congrArg Arena.size (Option.some.inj hchr)
  · intro hram
    rw [if_neg hram] at hchr
    exact Option.some.inj hchr

/-- Nothing that a running console does to a cartridge changes which states fit it. -/
theorem kin_acted (c : Cartridge) (a : Act) : Kin c (c.acted a) := by
  cases a with
  | write addr value => exact kin_write c addr value
  | chrWrite addr value => exact kin_chrWrite c addr value
  | observe addr => exact kin_board fun r => (c.board.install?_observe addr r).symm
  | clockScanline => exact kin_board fun r => (c.board.install?_clockScanline r).symm
  | ticks cycles => exact kin_ticks cycles c
  | restore s =>
    cases hrestore : c.restore s with
    | ok restored =>
      simp only [acted, hrestore]
      exact kin_restore hrestore
    | error e =>
      simp only [acted, hrestore]
      exact .refl c

/-- Nothing that a running console does to a cartridge changes its program ROM. -/
theorem acted_prg (c : Cartridge) (a : Act) : (c.acted a).prg = c.prg := (kin_acted c a).prg.symm

/-- Restoring a state takes away every trace of what was played since. -/
theorem Kin.restore_eq_ok {c d restored : Cartridge} {s : State} (h : Kin c d)
    (hrestore : c.restore s = .ok restored) : d.restore s = .ok restored := by
  obtain ⟨board, workRam, chr, hboard, hwork, hchr, rfl⟩ := restore_eq_ok_iff.mp hrestore
  refine restore_eq_ok_iff.mpr ⟨board, workRam, chr, (h.registers _).symm.trans hboard,
    (Arena.replace?_congr h.workRam _).symm.trans hwork, ?_, ?_⟩
  · rw [← h.chrIsRam]
    by_cases hram : c.chrIsRam
    · rw [if_pos hram] at hchr ⊢
      exact (Arena.replace?_congr h.chrRam _).symm.trans hchr
    · rw [if_neg hram] at hchr ⊢
      rw [← h.chrRom hram]
      exact hchr
  · rw [h.prg, h.chrIsRam]

/-! ## What patches leave alone -/

/-- Two cartridges that differ only in what play can change and in the contents of program ROM,
which patches change. -/
def Reworked (c d : Cartridge) : Prop := Kin { c with prg := d.prg } d

theorem Reworked.refl (c : Cartridge) : Reworked c c := Kin.refl c

theorem Reworked.trans {c d e : Cartridge} (h : Reworked c d) (k : Reworked d e) :
    Reworked c e := by
  have hsame : Kin { c with prg := e.prg } { d with prg := e.prg } :=
    ⟨h.registers, rfl, h.chrIsRam, h.workRam, h.chrRam, h.chrRom⟩
  exact hsame.trans k

/-- What differs by play alone differs by play and patches. -/
theorem Kin.reworked {c d : Cartridge} (h : Kin c d) : Reworked c d :=
  ⟨h.registers, rfl, h.chrIsRam, h.workRam, h.chrRam, h.chrRom⟩

theorem reworked_prg (c : Cartridge) (prg : Arena) : Reworked c { c with prg } := Kin.refl _

/-! ## Saving and restoring -/

/-- A cartridge goes back to its own state. -/
theorem restore_save (c : Cartridge) : c.restore c.save = .ok c := by
  refine restore_eq_ok_iff.mpr ⟨c.board, c.workRam, c.chr, c.board.install?_registers,
    c.workRam.replace?_bytes, ?_, rfl⟩
  by_cases hram : c.chrIsRam
  · rw [if_pos hram, save, if_pos hram]
    exact c.chr.replace?_bytes
  · rw [if_neg hram]

/-- The byte that an address shows lies in the program ROM. -/
theorem prgOffset?_lt {c : Cartridge} {addr : UInt16} {offset : Nat}
    (h : c.prgOffset? addr = some offset) : offset < c.prg.size := by
  have hsize : 0 < c.prg.size := c.prg.size_pos
  have hbank (unit bank : Nat) : Banks.offset c.prg.size unit bank addr < c.prg.size :=
    Banks.offset_lt unit bank addr hsize
  unfold prgOffset? Board.prgOffset? at h
  split at h
  · cases h
  · -- every board but one counts round the banks; that one compares with the size itself
    cases hboard : c.board with
    | fixed b =>
      simp only [hboard, Board.Fixed.prgOffset?] at h
      split at h
      · split at h
        · next hin =>
          cases h
          exact hin.2
        · cases h
      · split at h
        · exact Option.some.inj h ▸ hbank _ _
        · exact Option.some.inj h ▸ Nat.mod_lt _ hsize
    | discrete b =>
      simp only [hboard, Option.some.injEq] at h
      exact h ▸ hbank _ _
    | mmc1 b =>
      simp only [hboard, Option.some.injEq] at h
      exact h ▸ hbank _ _
    | mmc3 b =>
      simp only [hboard, Option.some.injEq] at h
      exact h ▸ hbank _ _
    | mmc2 b =>
      simp only [hboard, Option.some.injEq] at h
      exact h ▸ hbank _ _
    | wide b =>
      simp only [hboard, Option.some.injEq] at h
      exact h ▸ hbank _ _
    | ffe b =>
      simp only [hboard, Option.some.injEq] at h
      exact h ▸ hbank _ _

end Famicom.Cartridge
