import Famicom.Proofs.Console.Holding
import Famicom.Proofs.Console.Tuning

/-!
# Loading erases history

An image that is loaded finds the console as if it had just been built.  What remains of the time
before are the settings and the tuning of the audio unit; processor, RAM, audio unit, cartridge,
patches, frame progress, requests, counters and log are made anew.

* `fresh` — the console that loading leads to, written out; no other console occurs in it.
* `load_eq_fresh` — loading leads there from every console.
* `load_forgets` — two consoles with different pasts.
-/

namespace Famicom

open Sound

/-- Where a cartridge starts the processor. -/
def Cartridge.startAddress (c : Cartridge) : UInt16 := wordOf (c.read 0xFFFC) (c.read 0xFFFD)

namespace Console

/-! ## A fresh console -/

/-- The bus when the processor was just started: RAM is clear, the audio unit is at power-on but for
its tuning, and the two bytes of the reset vector are the only accesses. -/
def freshBus (tuning : UInt32 × Mixing) (made : Cartridge) : Bus where
  ram := Bus.zeroRam
  apu := { Apu.powerOn with sampleRate := tuning.1, mixing := tuning.2 }
  cartridge := some made
  counters := { cartridge := { reads := 2 } }

/-- The events of loading an image, the newest first. -/
def freshLog (i : Image) (start : UInt16) : EventLog :=
  let loaded := [.loaded (Program.ofImage i).title, .reset start]
  ⟨if Board.isKnown i.mapper then loaded else .unknownMapper i.mapper :: loaded⟩

/-- The console that an image was just loaded into. -/
def fresh (s : Settings) (tuning : UInt32 × Mixing) (i : Image) (made : Cartridge) : Console where
  cpu := { Cpu.powerOn with pc := made.startAddress }
  bus := freshBus tuning made
  settings := s
  patches := .empty
  program := some (.ofImage i)
  nmiRequested := false
  haltLogged := false
  clock := {}
  totals := {}
  log := freshLog i made.startAddress

/-! ## Loading -/

/-- Of a console whose cartridge was just put in, resetting keeps settings and tuning. -/
theorem reset_inserted (c : Console) (i : Image) (made : Cartridge) :
    reset (c.inserted i made) =
      ((), { fresh c.settings c.bus.apu.tuning i made with
        log := ⟨[.reset made.startAddress]⟩ }) := rfl

/-- Once the cartridge is in, nothing of the console before is read again but its settings. -/
theorem startLoaded_inserted (c : Console) (i : Image) (made : Cartridge) :
    (startLoaded i).run (c.inserted i made) =
      (.ok (), fresh c.settings c.bus.apu.tuning i made) := by
  unfold startLoaded
  simp only [Run.bind_run, Run.lift_run, reset_inserted]
  by_cases hknown : Board.isKnown i.mapper
  · simp only [fresh, freshLog, hknown]
    rfl
  · simp only [fresh, freshLog, hknown]
    rfl

/-- What loading leads to depends on image, settings and tuning alone. -/
theorem load_eq_fresh {i : Image} {made : Cartridge} (hmade : Cartridge.ofImage i = .ok made)
    (c : Console) : (load i).run c = (.ok (), fresh c.settings c.bus.apu.tuning i made) :=
  (load_run hmade c).trans (startLoaded_inserted c i made)

/-- Loading that ends well has made a cartridge from the image. -/
theorem load_inv {i : Image} {c k : Console} (h : (load i).run c = (.ok (), k)) :
    ∃ made, Cartridge.ofImage i = .ok made ∧ k = fresh c.settings c.bus.apu.tuning i made := by
  rcases load_cases i c with ⟨e, -, hrun⟩ | ⟨made, -, hmade, -, -⟩
  · cases h.symm.trans hrun
  · cases h.symm.trans (load_eq_fresh hmade c)
    exact ⟨made, hmade, rfl⟩

/-- **Loading erases history.**  Whatever two consoles have been through, if they have the same
settings and the same tuning, and an image is loaded into one of them, then it is loaded into the
other as well and leads to the same console.  All of it is made anew: the processor starts at the
reset vector, RAM is clear, the audio unit is at power-on but for its tuning, the cartridge is the
one made from the image, and patches, frame progress, requests, counters and log are those of a
start.  So every computation gives the same on both from there on. -/
theorem load_forgets {c d k : Console} {i : Image} (hsettings : c.settings = d.settings)
    (hrate : c.bus.apu.sampleRate = d.bus.apu.sampleRate)
    (hmixing : c.bus.apu.mixing = d.bus.apu.mixing) (hload : (load i).run c = (.ok (), k)) :
    (∃ made, Cartridge.ofImage i = .ok made ∧
      k = fresh c.settings (c.bus.apu.sampleRate, c.bus.apu.mixing) i made) ∧
    ∃ k', (load i).run d = (.ok (), k') ∧ k' = k ∧
      ∀ (α : Type) (later : Run α), later.run k' = later.run k := by
  obtain ⟨made, hmade, hk⟩ := load_inv hload
  have htuning : d.bus.apu.tuning = c.bus.apu.tuning := by
    simp only [Apu.tuning, hrate, hmixing]
  have hsame : (load i).run d = (.ok (), k) := by
    rw [load_eq_fresh hmade d, htuning, ← hsettings, ← hk]
  exact ⟨⟨made, hmade, hk⟩, k, hsame, rfl, fun _ _ => rfl⟩

/-- A game on another board has been patched and played, and an interrupt is requested.  After the
next game is loaded nothing of it is left: the console is the one that a new console would be. -/
theorem load_forgets_played :
    let c := [.load (oneByte 4), .addPatch "AAAAAA", .busWrite 0 7, .raiseNmi].foldl acted powerOn
    c.settings = powerOn.settings ∧ c.bus.apu.sampleRate = powerOn.bus.apu.sampleRate ∧
      c.bus.apu.mixing = powerOn.bus.apu.mixing ∧
      (c.nmiRequested = true ∧ c.bus.ram[0] = 7 ∧ c.patches.applied.length = 1) ∧
      ∃ k, (load (oneByte 0)).run c = (.ok (), k) ∧ (load (oneByte 0)).run powerOn = (.ok (), k) ∧
        k.nmiRequested = false ∧ k.bus.ram[0] = 0 ∧ k.patches = .empty ∧ k.cpu.pc = 0xEAEA := by
  intro c
  have hmade : Cartridge.ofImage (oneByte 0) = .ok _ := rfl
  have hload := load_eq_fresh hmade c
  have hsettings : c.settings = powerOn.settings := by decide +kernel
  have hrate : c.bus.apu.sampleRate = powerOn.bus.apu.sampleRate := by decide +kernel
  have hmixing : c.bus.apu.mixing = powerOn.bus.apu.mixing := by decide +kernel
  obtain ⟨-, k, hnew, rfl, -⟩ := load_forgets hsettings hrate hmixing hload
  refine ⟨hsettings, hrate, hmixing, by decide +kernel, _, hload, hnew, rfl, rfl, rfl, ?_⟩
  decide +kernel

end Console

end Famicom
