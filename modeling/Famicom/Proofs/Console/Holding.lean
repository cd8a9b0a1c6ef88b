import Famicom.Proofs.Console.Failure
import Famicom.Proofs.Console.Reachable

/-!
# Consoles that hold an image

A console holds the image that was loaded into it for as long as no other cartridge takes the place
of the image's own.  Whatever a host does meanwhile, the console knows the program of the image, and
its cartridge could have been made from the image by play and patches.

A snapshot names the program ROM that it belongs to but not the board.  What keeps it from a
console that holds the same program ROM on another board is the kind of the registers in it, and
several boards share a kind.

* `Holding.held` — what is true of every console that holds an image.
* `Board.kind_eq_iff_related` — which boards have registers of one kind.
* `restore_fails_iff_unrelated` — when a snapshot from another board is refused.
-/

namespace Famicom

/-! ## Cartridges of an image -/

/-- The bus carries a cartridge that play and patches may have made of `made`. -/
def Bus.Holds (made : Cartridge) (b : Bus) : Prop := ∃ c, b.cartridge = some c ∧ made.Reworked c

/-- Whatever a console does, its bus goes on holding a cartridge of the image. -/
theorem Bus.holds_enduring (made : Cartridge) : Enduring (Holds made) where
  counters _ _ h := h
  ram _ _ h := h
  apu _ _ h := h
  adoptApu _ _ _ h := h
  cartridge b c d hc hd h := by
    obtain ⟨c', hc', hmade⟩ := h
    cases hc.symm.trans hc'
    exact ⟨d, rfl, hmade.trans hd⟩

namespace Cartridge

/-- Neither play nor patches change the kind of the registers. -/
theorem Reworked.kind_eq {c d : Cartridge} (h : Reworked c d) :
    d.board.registers.kind = c.board.registers.kind := by
  have hinstall : c.board.install? d.board.registers = some d.board :=
    (h.registers _).trans d.board.install?_registers
  exact (c.board.exists_install?_iff _).mp ⟨d.board, hinstall⟩

end Cartridge

namespace Console

/-! ## Holding an image -/

/-- The console holds the image: it was loaded, and since then the host has done anything but put
another cartridge in.  The host may also have reached past the console and reworked the cartridge
directly. -/
inductive Holding (i : Image) : Console → Prop
  | loaded {c d : Console} (h : (load i).run c = (.ok (), d)) : Holding i d
  | acted {c : Console} (a : Act) (ha : a.keepsCartridge) (h : Holding i c) : Holding i (c.acted a)
  | reworked {c : Console} {d e : Cartridge} (hd : c.bus.cartridge = some d) (he : d.Reworked e)
      (h : Holding i c) : Holding i { c with bus := c.bus.attach e }

/-- A console that holds an image knows its program and carries its cartridge. -/
theorem Holding.held {i : Image} {c : Console} (h : Holding i c) :
    ∃ made, Cartridge.ofImage i = .ok made ∧
      Bears (some (.ofImage i)) (Bus.Holds made) c := by
  induction h with
  | @loaded c d hload =>
    rcases load_cases i c with ⟨e, -, hrun⟩ | ⟨made, d', hmade, hrun, hlasts⟩
    · cases hload.symm.trans hrun
    · cases hload.symm.trans hrun
      exact ⟨made, hmade, hlasts _ (Bus.holds_enduring made) ⟨made, rfl, .refl made⟩⟩
  | acted a ha _ ih =>
    obtain ⟨made, hmade, hbears⟩ := ih
    exact ⟨made, hmade, hbears.acted (Bus.holds_enduring made) ha⟩
  | reworked hd he _ ih =>
    obtain ⟨made, hmade, hbears⟩ := ih
    exact ⟨made, hmade, hbears.program,
      (Bus.holds_enduring made).cartridge _ _ _ hd he hbears.bus⟩

/-- From any console, an image with some program ROM gets held. -/
theorem exists_holding {i : Image} (h : 0 < i.prg.size) : ∃ c, Holding i c := by
  rcases load_cases i powerOn with ⟨e, himage, -⟩ | ⟨made, d, -, hrun, -⟩
  · cases himage.symm.trans (Cartridge.ofImage_eq_ok_iff.mpr ⟨h, rfl⟩)
  · exact ⟨d, .loaded hrun⟩

end Console

/-! ## Kinds of boards -/

namespace Board

/-- The kind of registers on the board that a mapper number stands for. -/
def kindOf (mapper : UInt16) : String :=
  match mapper with
  | 1 => "shift_register"
  | 2 | 3 => "discrete"
  | 4 => "multi_bank_irq"
  | 7 | 11 | 66 => "single_register"
  | 9 | 10 => "latch_chr"
  | 17 => "counter_irq"
  | _ => "fixed"

/-- The mapper number alone decides about the kind. -/
theorem kind_powerOn (i : Image) : (powerOn i).registers.kind = kindOf i.mapper := by
  unfold powerOn kindOf
  generalize i.mapper = mapper
  split
  case h_11 =>
    simp only [*]
    rfl
  all_goals rfl

/-- The mapper numbers of the known boards, grouped by the kind of their registers. -/
def families : List (List UInt16) := [[0], [1], [2, 3], [4], [7, 11, 66], [9, 10], [17]]

/-- The mapper numbers stand for boards of one family. -/
def related (a b : UInt16) : Bool := families.any fun f => f.contains a && f.contains b

/-- Known boards have registers of one kind just if they belong to one family. -/
theorem kind_eq_iff_related {i j : Image} (hi : isKnown i.mapper) (hj : isKnown j.mapper) :
    (powerOn i).registers.kind = (powerOn j).registers.kind ↔ related i.mapper j.mapper := by
  have htable : families.flatten.all fun a => families.flatten.all fun b =>
      decide (kindOf a = kindOf b) == related a b := by decide +kernel
  have hknown {a : UInt16} (ha : isKnown a) : a ∈ families.flatten := by
    have hlisted : [0, 1, 2, 3, 4, 7, 9, 10, 11, 17, 66].all fun a =>
        families.flatten.contains a := by decide
    have hmem := List.all_eq_true.mp hlisted a (List.contains_iff_mem.mp ha)
    exact List.contains_iff_mem.mp hmem
  have hrow := List.all_eq_true.mp htable _ (hknown hi)
  have hsame := beq_iff_eq.mp (List.all_eq_true.mp hrow _ (hknown hj))
  rw [kind_powerOn, kind_powerOn, ← hsame, decide_eq_true_iff]

end Board

/-! ## Snapshots from another board -/

namespace Image

/-- The work RAM of a cartridge made from the image. -/
def workRamBytes (i : Image) : Nat := max i.workRamSize minWorkRam

/-- The pattern memory of a cartridge made from the image. -/
def chrBytes (i : Image) : Nat := if 0 < i.chr.size then i.chr.size else chrRamSize

/-- The cartridges of the images have the same program ROM, and RAMs of the same sizes. -/
structure SameMemory (i j : Image) : Prop where
  prg : i.prg = j.prg
  workRam : i.workRamBytes = j.workRamBytes
  chrIsRam : i.chrIsRam = j.chrIsRam
  chrRam : i.chrIsRam → i.chrBytes = j.chrBytes

end Image

namespace Cartridge

/-- Cartridges of an image have its memory. -/
theorem Reworked.sizes {i : Image} {made c : Cartridge} (hmade : ofImage i = .ok made)
    (h : made.Reworked c) :
    c.workRam.size = i.workRamBytes ∧ c.chrIsRam = i.chrIsRam ∧ c.chr.size = i.chrBytes := by
  obtain ⟨hprg, rfl⟩ := ofImage_eq_ok_iff.mp hmade
  have hzeros (n : Nat) (hn : 0 < n) : (Arena.zeros n).size = n := by
    change (Array.replicate (max n 1) 0).size = n
    rw [Array.size_replicate, Nat.max_eq_left hn]
  refine ⟨?_, h.chrIsRam.symm, ?_⟩
  · rw [← h.workRam]
    exact hzeros _ (Nat.lt_of_lt_of_le (by decide) (Nat.le_max_right _ _))
  · rw [← h.chrRam, Image.chrBytes]
    change (Arena.ofBytes i.chr Image.chrRamSize).size = _
    unfold Arena.ofBytes
    split
    · rfl
    · exact hzeros _ (by decide)

end Cartridge

namespace Console

/-- Between images of the same memory, only the kind of the registers is in a snapshot's way. -/
theorem restore_fails_iff_kind {i j : Image} (hmemory : i.SameMemory j) {m k : Console}
    (hm : Holding i m) (hk : Holding j k) :
    ∃ s, m.snapshot = .ok s ∧ ((∃ e, (restore s).run k = (.error e, k)) ↔
      (Board.powerOn i).registers.kind ≠ (Board.powerOn j).registers.kind) := by
  obtain ⟨made, hmade, hprogram, c, hc, hcmade⟩ := hm.held
  obtain ⟨other, hother, hprogram', d, hd, hdmade⟩ := hk.held
  refine ⟨_, snapshot_eq_ok hc hprogram, (restore_fails_iff hprogram' hd).trans ?_⟩
  obtain ⟨hwork, hram, hchr⟩ := hcmade.sizes hmade
  obtain ⟨hwork', hram', hchr'⟩ := hdmade.sizes hother
  have hkind : c.board.registers.kind = (Board.powerOn i).registers.kind := by
    obtain ⟨hprg, rfl⟩ := Cartridge.ofImage_eq_ok_iff.mp hmade
    exact hcmade.kind_eq
  have hkind' : d.board.registers.kind = (Board.powerOn j).registers.kind := by
    obtain ⟨hprg, rfl⟩ := Cartridge.ofImage_eq_ok_iff.mp hother
    exact hdmade.kind_eq
  rw [← hkind, ← hkind']
  -- all that a snapshot is compared with comes from the images, and there only the kind can differ
  constructor
  · rintro (hne | hne | hne | hne | hne | ⟨hdram, hne⟩)
    · exact absurd rfl hne
    · exact absurd (congrArg (fun prg => Base64.encode (Sha1.digest prg)) hmemory.prg) hne
    · exact absurd m.bus.ram.size_toArray hne
    · exact hne
    · exact absurd (hwork.trans (hmemory.workRam.trans hwork'.symm)) hne
    · have hiram : i.chrIsRam := hmemory.chrIsRam.trans (hram'.symm.trans hdram)
      refine absurd ?_ hne
      change (if c.chrIsRam then c.chr.bytes else #[]).size = d.chr.size
      rw [if_pos (hram.trans hiram)]
      exact hchr.trans ((hmemory.chrRam hiram).trans hchr'.symm)
  · exact fun hne => .registers hne

/-- **Snapshots from another board.**  Two consoles hold images of known boards with the same
program ROM and RAMs of the same sizes.  Whatever state the first is in, it can take a snapshot, and
whatever state the second is in, it refuses that snapshot and stays as it is just if the boards are
of different families. -/
theorem restore_fails_iff_unrelated {i j : Image} (hi : Board.isKnown i.mapper)
    (hj : Board.isKnown j.mapper) (hmemory : i.SameMemory j) {m k : Console} (hm : Holding i m)
    (hk : Holding j k) :
    ∃ s, m.snapshot = .ok s ∧
      ((∃ e, (restore s).run k = (.error e, k)) ↔ ¬Board.related i.mapper j.mapper) := by
  obtain ⟨s, hs, hfails⟩ := restore_fails_iff_kind hmemory hm hk
  exact ⟨s, hs, hfails.trans (not_congr (Board.kind_eq_iff_related hi hj))⟩

/-- One byte of program ROM on the board of a mapper number. -/
def oneByte (mapper : UInt16) : Image where
  mapper
  mirroring := .horizontal
  fourScreen := false
  battery := false
  prg := #[0xEA]
  chr := #[]
  chrIsRam := true
  workRamSize := 0
  loadAddress := Image.romStart
  sound := none

/-- A board with an interrupt counter refuses what a board without registers has saved. -/
theorem restore_fails_iff_unrelated_mmc3 :
    Board.isKnown (oneByte 0).mapper ∧ Board.isKnown (oneByte 4).mapper ∧
      (oneByte 0).SameMemory (oneByte 4) ∧
      ∃ m k s, Holding (oneByte 0) m ∧ Holding (oneByte 4) k ∧ m.snapshot = .ok s ∧
        ∃ e, (restore s).run k = (.error e, k) := by
  have hmemory : (oneByte 0).SameMemory (oneByte 4) := ⟨rfl, rfl, rfl, fun _ => rfl⟩
  obtain ⟨m, hm⟩ := exists_holding (i := oneByte 0) (by decide)
  obtain ⟨k, hk⟩ := exists_holding (i := oneByte 4) (by decide)
  obtain ⟨s, hs, hfails⟩ := restore_fails_iff_unrelated (by decide) (by decide) hmemory hm hk
  exact ⟨by decide, by decide, hmemory, m, k, s, hm, hk, hs, hfails.mpr (by decide)⟩

/-- Boards of one family are not told apart: what one with switched program ROM has saved goes into
one with switched pattern memory. -/
theorem restore_uxrom_cnrom :
    Board.isKnown (oneByte 2).mapper ∧ Board.isKnown (oneByte 3).mapper ∧
      (oneByte 2).mapper ≠ (oneByte 3).mapper ∧ (oneByte 2).SameMemory (oneByte 3) ∧
      ∃ m k s r, Holding (oneByte 2) m ∧ Holding (oneByte 3) k ∧ m.snapshot = .ok s ∧
        (restore s).run k = (.ok (), r) := by
  have hmemory : (oneByte 2).SameMemory (oneByte 3) := ⟨rfl, rfl, rfl, fun _ => rfl⟩
  obtain ⟨m, hm⟩ := exists_holding (i := oneByte 2) (by decide)
  obtain ⟨k, hk⟩ := exists_holding (i := oneByte 3) (by decide)
  obtain ⟨s, hs, hfails⟩ := restore_fails_iff_kind hmemory hm hk
  rcases restore_cases s k with hfailed | ⟨c, hfits, hrun⟩
  · exact absurd rfl (hfails.mp hfailed)
  · exact ⟨by decide, by decide, by decide, hmemory, m, k, s, _, hm, hk, hs, hrun⟩

end Console

end Famicom
