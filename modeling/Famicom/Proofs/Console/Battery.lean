import Famicom.Proofs.Cartridge.Saving
import Famicom.Proofs.Console.Holding
import Famicom.Proofs.Console.Interrupts

/-!
# What a cartridge keeps between sessions

Play never changes the ROM of a cartridge or the size of any of its memories.  So the work RAM that
a battery keeps from one session fits every other session with the same image: it goes back where it
came from without a trace, and on a console that was just started with the image it is what the
program finds at `$6000-$7FFF`.

* `Cartridge.Kin.memory` — what all cartridges of one image have in common.
* `load_cartridge` — loading leaves the cartridge as it was made.
* `putBatteryRam_run` — work RAM of the right size is taken.
* `battery_lasts` — any run on a cartridge, and any session with a battery.
-/

namespace Famicom

/-! ## Cartridges -/

theorem Arena.exists_replace? {a : Arena} {bytes : Array UInt8} (h : bytes.size = a.size) :
    ∃ b, a.replace? bytes = some b ∧ b.bytes = bytes := ⟨_, dif_pos h, rfl⟩

namespace Cartridge

/-- Play leaves program ROM, pattern ROM and the sizes of all memories as they were made. -/
theorem Kin.memory {i : Image} {made c : Cartridge} (hmade : ofImage i = .ok made)
    (h : Kin made c) :
    c.prg.bytes = i.prg ∧ (i.chrIsRam = false → c.chr = made.chr) ∧ c.chr.size = made.chr.size ∧
      c.workRam.size = i.workRamBytes := by
  obtain ⟨hwork, -, -⟩ := h.reworked.sizes hmade
  obtain ⟨hprg, rfl⟩ := ofImage_eq_ok_iff.mp hmade
  refine ⟨congrArg Arena.bytes h.prg.symm, fun hrom => ?_, h.chrRam.symm, hwork⟩
  exact (h.chrRom (Bool.eq_false_iff.mp hrom)).symm

end Cartridge

/-- At power-on the processor can read work RAM on every board. -/
theorem Board.workRamReadable_powerOn (i : Image) : (powerOn i).workRamReadable := by
  unfold powerOn
  split <;> rfl

/-! ## The bus -/

/-- From `$6000` on every access goes to the cartridge. -/
theorem Region.of_workRam {addr : UInt16} (hlo : 0x6000 ≤ addr) : Region.of addr = .cartridge := by
  have hle : 0x6000 ≤ addr.toNat := UInt16.le_iff_toNat_le.mp hlo
  have hnot {bound : UInt16} (hbound : bound.toNat ≤ 0x6000) : ¬addr < bound := fun hlt =>
    absurd (UInt16.lt_iff_toNat_lt.mp hlt) (by omega)
  unfold Region.of
  rw [if_neg (hnot (by decide)), if_neg (hnot (by decide)), if_neg (hnot (by decide))]

/-- Where work RAM can be read, it shows from its start on. -/
theorem Bus.read_workRam {b : Bus} {c : Cartridge} (hc : b.cartridge = some c)
    (hreadable : c.board.workRamReadable) {addr : UInt16} (hlo : 0x6000 ≤ addr)
    (hhi : addr < 0x8000) :
    (AddressSpace.read addr b).1 = c.workRam.get (addr.toNat - 0x6000) := by
  have hwork : Cartridge.isWorkRam addr := by
    rw [Cartridge.isWorkRam, decide_eq_true hlo, decide_eq_true hhi]
    rfl
  change ((b.count addr Tally.read).fetch addr).1 = _
  rw [Bus.fetch_cartridge (Region.of_workRam hlo)]
  change (b.cartridge.map (·.read addr)).getD 0 = _
  rw [hc]
  change c.read addr = _
  rw [Cartridge.read, if_pos hwork, if_pos hreadable]
  rfl

/-- Restarting the processor touches nothing of the bus but counters. -/
theorem Exec.reset_bus (c : Cpu) (b : Bus) :
    ∃ counters, Exec.reset (c, b) =
      ((), { Cpu.powerOn with pc := b.wordAt resetVector }, { b with counters }) := by
  have hlo : Region.of resetVector = .cartridge := by decide
  have hhi : Region.of (resetVector + 1) = .cartridge := by decide
  obtain ⟨counters, hread⟩ := readWord_bus hlo hhi .powerOn b
  refine ⟨counters, ?_⟩
  change jump (readWord resetVector (Cpu.powerOn, b)).1 (readWord resetVector (.powerOn, b)).2 = _
  rw [hread]
  rfl

namespace Console

/-! ## Loading -/

/-- The console has a given program, and exactly the given cartridge. -/
abbrev Starts (p : Option Program) (made : Cartridge) : Console → Prop :=
  Bears p fun b => b.cartridge = some made

/-- Resetting reads the vector and leaves the cartridge alone. -/
theorem starts_reset (p : Option Program) (made : Cartridge) :
    Respects (Kept (Starts p made)) reset := by
  have hexec : Respects (Kept (Starts p made)) (exec Exec.reset : StateM Console Unit) := by
    refine respects_kept_iff.mpr fun c h => ?_
    obtain ⟨counters, hreset⟩ := Exec.reset_bus c.cpu c.bus
    change Starts p made (execOn Exec.reset c).2
    rw [execOn, hreset]
    exact ⟨h.program, h.bus⟩
  unfold reset
  exact .observe_kept fun c => .ite (.bind (keeps_onBus fun _ h => h) fun _ => .bind hexec fun _ =>
    .bind (.update_kept fun _ h => ⟨h.program, h.bus⟩) fun _ => .observe_kept fun d =>
      keeps_report _) (.pure _)

/-- Loading an image leaves its cartridge as it was made. -/
theorem load_cartridge {i : Image} {made : Cartridge} (hmade : Cartridge.ofImage i = .ok made)
    (c : Console) :
    ∃ d, (load i).run c = (.ok (), d) ∧ Starts (some (.ofImage i)) made d := by
  have hstart := keeps_startLoaded (starts_reset (some (.ofImage i)) made) i
  exact ⟨_, (load_run hmade c).trans (startLoaded_run i _),
    hstart.keeps (s := c.inserted i made) ⟨rfl, rfl⟩⟩

/-! ## Battery RAM -/

/-- Work RAM of the right size goes into the cartridge and changes nothing else. -/
theorem putBatteryRam_run {c : Console} {p : Program} {cartridge : Cartridge} {data : Array UInt8}
    {workRam : Arena} (hprogram : c.program = some p) (hbattery : p.battery)
    (hcartridge : c.bus.cartridge = some cartridge)
    (hdata : cartridge.workRam.replace? data = some workRam) :
    (putBatteryRam data).run c = (.ok (), { c with
      bus := c.bus.attach { cartridge with workRam }
      log := c.log.push (.batteryLoaded data.size) }) := by
  have hbacked : c.batteryBacked := by
    rw [batteryBacked, hprogram]
    exact hbattery
  unfold putBatteryRam
  simp only [Run.bind_run, Run.get_run, hbacked, Bool.not_true, Bool.false_eq_true, if_false,
    Console.cartridge, hcartridge, Run.pure_run, hdata]
  rfl

/-- **What a battery keeps.**  Whatever is done with a cartridge made from an image, program ROM and
pattern ROM keep every byte and all memories keep their sizes.  If the image has a battery, then in
every session that holds it the work RAM can be taken out, and putting it back changes nothing.  A
console that was just started with the same image takes it as well, and then its program reads the
first 8 KiB of it at `$6000-$7FFF`. -/
theorem battery_lasts {i : Image} {made : Cartridge} (hmade : Cartridge.ofImage i = .ok made) :
    (∀ ops : List Cartridge.Operation,
      let c := (made.run ops).2
      c.prg.bytes = i.prg ∧ (i.chrIsRam = false → c.chr = made.chr) ∧
        c.chr.size = made.chr.size ∧ c.workRam.size = max i.workRamSize 8192) ∧
    (i.battery → ∀ c : Console, Holding i c → ∃ data : Array UInt8,
      c.batteryRam? = some data ∧
      (putBatteryRam data).run c =
        (.ok (), { c with log := c.log.push (.batteryLoaded data.size) }) ∧
      ∀ k : Console, ∃ fresh d, (load i).run k = (.ok (), fresh) ∧
        (putBatteryRam data).run fresh = (.ok (), d) ∧
        ∀ addr : UInt16, 0x6000 ≤ addr → addr < 0x8000 →
          data[addr.toNat - 0x6000]? = some (AddressSpace.read addr d.bus).1) := by
  refine ⟨fun ops => (Cartridge.kin_run ops made).memory hmade, fun hbattery c hc => ?_⟩
  obtain ⟨made', hmade', hprogram, cartridge, hcartridge, hreworked⟩ := hc.held
  cases hmade.symm.trans hmade'
  obtain ⟨hsize, -, -⟩ := hreworked.sizes hmade
  have hram : c.batteryRam? = some cartridge.workRam.bytes := by
    rw [batteryRam?, batteryBacked, hprogram, hcartridge]
    exact if_pos hbattery
  refine ⟨cartridge.workRam.bytes, hram, ?_, fun k => ?_⟩
  · -- putting back what was just taken out
    have hsame : c.bus.attach cartridge = c.bus := by
      rw [Bus.attach, ← hcartridge]
    have hput := putBatteryRam_run hprogram hbattery hcartridge cartridge.workRam.replace?_bytes
    exact hput.trans (by rw [hsame])
  · -- a fresh cartridge of the same image has work RAM of the same size
    obtain ⟨fresh, hload, hprogram', hfresh⟩ := load_cartridge hmade k
    obtain ⟨hsize', -, -⟩ := (Cartridge.Reworked.refl made).sizes hmade
    obtain ⟨workRam, hreplace, hbytes⟩ := Arena.exists_replace? (hsize.trans hsize'.symm)
    have hput := putBatteryRam_run hprogram' hbattery hfresh hreplace
    refine ⟨fresh, _, hload, hput, fun addr hlo hhi => ?_⟩
    have hboard : made.board.workRamReadable := by
      obtain ⟨hprg, rfl⟩ := Cartridge.ofImage_eq_ok_iff.mp hmade
      exact Board.workRamReadable_powerOn i
    have hindex : addr.toNat - 0x6000 < workRam.size := by
      have hbound : addr.toNat < 0x8000 := UInt16.lt_iff_toNat_lt.mp hhi
      have hleast : 0x2000 ≤ i.workRamBytes := Nat.le_max_right _ _
      rw [Arena.size_replace? hreplace, hsize']
      omega
    rw [Bus.read_workRam (c := { made with workRam }) rfl hboard hlo hhi, ← hbytes]
    exact Arena.getElem?_bytes hindex

/-- One byte of program ROM on a board with an interrupt counter, and a battery. -/
def batteryImage : Image := { oneByte 4 with battery := true }

/-- A byte that one session has stored is there in the next one, which starts with a zero. -/
theorem battery_lasts_mmc3 :
    ∃ made, Cartridge.ofImage batteryImage = .ok made ∧ batteryImage.battery ∧
      (made.run
        [.act (.write 0x6000 7), .act (.write 0x8001 1), .act (.chrWrite 0 9)]).2.prg.bytes =
          #[0xEA] ∧
      let c := (powerOn.acted (.load batteryImage)).acted (.busWrite 0x6000 7)
      Holding batteryImage c ∧ ∃ data d, c.batteryRam? = some data ∧
        (putBatteryRam data).run (powerOn.acted (.load batteryImage)) = (.ok (), d) ∧
        (AddressSpace.read 0x6000 (powerOn.acted (.load batteryImage)).bus).1 = 0 ∧
        (AddressSpace.read 0x6000 d.bus).1 = 7 := by
  have hmade : Cartridge.ofImage batteryImage = .ok _ := rfl
  obtain ⟨hkept, hsessions⟩ := battery_lasts hmade
  obtain ⟨hprg, -⟩ :=
    hkept [.act (.write 0x6000 7), .act (.write 0x8001 1), .act (.chrWrite 0 9)]
  refine ⟨_, hmade, rfl, hprg, ?_⟩
  intro c
  have hloaded : Holding batteryImage (powerOn.acted (.load batteryImage)) :=
    .loaded (Run.run_of_isOk (c := powerOn) rfl)
  have hc : Holding batteryImage c := .acted (.busWrite 0x6000 7) rfl hloaded
  obtain ⟨data, hdata, -, hnext⟩ := hsessions rfl c hc
  obtain ⟨fresh, d, hload, hput, hserved⟩ := hnext powerOn
  have hfresh : powerOn.acted (.load batteryImage) = fresh := congrArg Prod.snd hload
  have hstored : c.batteryRam?.bind (·[0]?) = some 7 := by decide +kernel
  rw [hdata] at hstored
  have hread := (hserved 0x6000 (by decide) (by decide)).symm.trans hstored
  exact ⟨hc, data, d, hdata, hfresh ▸ hput, by decide +kernel, Option.some.inj hread⟩

end Console

end Famicom
