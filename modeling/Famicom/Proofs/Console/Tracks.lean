import Famicom.Proofs.Cartridge.Translation
import Famicom.Proofs.Console.Holding

/-!
# A track starts from nothing

Starting a track clears everything that the routines of a sound program can reach.  Two consoles
that hold the same sound program may have come to any states before: once the same track has been
started on both, nothing that is played or heard tells them apart.  Pattern memory is not cleared,
but the processor cannot reach it.

* `Bus.sameFront_congruence` — programs cannot tell pattern memory.
* `alike_cleared` — the consoles that the initialization routine is called on.
* `startTrack_forgets` — starting a track, and all that is played of it.
-/

namespace Famicom

open Sound

/-! ## The processor's side of a cartridge -/

namespace Cartridge

/-- The cartridge without its pattern memory. -/
def front (c : Cartridge) : Cartridge := { c with chr := .zeros 1, chrIsRam := false }

/-- A write to the cartridge does not look at pattern memory. -/
theorem front_write (c : Cartridge) (addr : UInt16) (value : UInt8) :
    (c.write addr value).front = c.front.write addr value := by
  unfold write
  split
  · change _ = if c.board.workRamWritable then _ else _
    split
    · rfl
    · rfl
  · rfl

/-- Nor does a clock. -/
theorem front_ticks (cycles : Nat) (c : Cartridge) :
    (c.ticks cycles).front = c.front.ticks cycles := by
  induction cycles generalizing c with
  | zero => rfl
  | succ n ih => exact ih c.tick

end Cartridge

namespace Bus

/-- The buses differ at most in pattern memory and in the accesses that they have counted. -/
structure SameFront (b e : Bus) : Prop where
  ram : b.ram = e.ram
  apu : b.apu = e.apu
  cartridge : b.cartridge.map Cartridge.front = e.cartridge.map Cartridge.front

namespace SameFront

variable {b e : Bus}

/-- What depends on the processor's side of the cartridge alone is the same. -/
theorem look {α : Type} (h : SameFront b e) {f : Cartridge → α}
    (hf : ∀ c : Cartridge, f c.front = f c) : b.cartridge.map f = e.cartridge.map f := by
  have hfront (b : Bus) : b.cartridge.map f = (b.cartridge.map Cartridge.front).map f := by
    rw [Option.map_map]
    exact congrArg (Option.map · b.cartridge) (funext fun c => (hf c).symm)
  rw [hfront b, hfront e, h.cartridge]

/-- What is done to both cartridges through the processor's side keeps that side the same. -/
theorem mapCartridge (h : SameFront b e) {f : Cartridge → Cartridge}
    (hf : ∀ c : Cartridge, (f c).front = f c.front) :
    SameFront { b with cartridge := b.cartridge.map f }
      { e with cartridge := e.cartridge.map f } := by
  refine ⟨h.ram, h.apu, ?_⟩
  have hfront (c : Cartridge) : (f c.front).front = (f c).front := by
    rw [hf, hf]
    rfl
  rw [Option.map_map, Option.map_map]
  exact h.look hfront

/-- Reads give the same byte, and status reads move both audio units alike. -/
theorem fetch (h : SameFront b e) (addr : UInt16) :
    (b.fetch addr).1 = (e.fetch addr).1 ∧ SameFront (b.fetch addr).2 (e.fetch addr).2 := by
  have hread : b.cartridge.map (·.read addr) = e.cartridge.map (·.read addr) :=
    h.look fun _ => rfl
  unfold Bus.fetch
  split
  · exact ⟨congrArg (·[ramCell addr]) h.ram, h⟩
  · exact ⟨rfl, h⟩
  · split
    · exact ⟨congrArg (·.readStatus.1) h.apu, h.ram, congrArg (·.readStatus.2) h.apu, h.cartridge⟩
    · exact ⟨rfl, h⟩
  · cases hb : b.cartridge <;> cases he : e.cartridge <;> rw [hb, he] at hread
    · exact ⟨rfl, h⟩
    · cases hread
    · cases hread
    · exact ⟨Option.some.inj hread, h⟩

/-- Writes reach equal parts. -/
theorem store (h : SameFront b e) (addr : UInt16) (value : UInt8) :
    SameFront (b.store addr value) (e.store addr value) := by
  unfold Bus.store
  split
  · exact ⟨congrArg (·.set (ramCell addr) value) h.ram, h.apu, h.cartridge⟩
  · exact h
  · exact ⟨h.ram, congrArg (·.write addr value) h.apu, h.cartridge⟩
  · exact h.mapCartridge fun c => c.front_write addr value

end SameFront

/-- Programs cannot tell pattern memory. -/
theorem sameFront_congruence : Congruence SameFront := by
  constructor
  case toCongruence =>
    have hcount {b e : Bus} (h : SameFront b e) (addr : UInt16) (f : Tally → Tally) :
        SameFront (b.count addr f) (e.count addr f) := ⟨h.ram, h.apu, h.cartridge⟩
    constructor
    · exact fun b e addr h => ((hcount h addr Tally.read).fetch addr).1
    · exact fun b e addr h => ((hcount h addr Tally.read).fetch addr).2
    · exact fun b e addr value h => (hcount h addr Tally.write).store addr value
  · intro b e h
    have hpresent := congrArg Option.isSome h.cartridge
    simpa only [Option.isSome_map] using hpresent
  · intro b e h
    have hpending (b : Bus) : b.cartridge.any (·.board.irqPending) =
        (b.cartridge.map (·.board.irqPending)).any id := by
      cases b.cartridge <;> rfl
    unfold irqLine
    rw [h.apu, hpending b, hpending e, h.look (f := (·.board.irqPending)) fun _ => rfl]
  · exact fun b e cycles h => h.mapCartridge fun c => c.front_ticks cycles
  · exact fun b e h => h.mapCartridge fun _ => rfl
  · exact fun b e h => ⟨h.ram, congrArg Apu.stepSequencer h.apu, h.cartridge⟩

end Bus

/-! ## Cartridges of a sound program -/

/-- The image of a sound program asks for the board without registers and names its program. -/
theorem Image.soundProgram_inv {data : Array UInt8} {load : UInt16} {sound : SoundProgram}
    {i : Image} (h : Image.soundProgram data load sound = .ok i) :
    i.mapper = 0 ∧ i.sound = some sound := by
  unfold Image.soundProgram at h
  dsimp only at h
  split at h
  · cases h
  split at h
  · cases h
  split at h
  · cases h
  split at h
  · cases h
  split at h
  · cases h
  split at h
  · cases h
  · cases h
    exact ⟨rfl, rfl⟩

namespace Cartridge

/-- Two cartridges of a sound program with the same program ROM have the same processor's side, once
their work RAM is cleared. -/
theorem Reworked.front_cleared {i : Image} (hmapper : i.mapper = 0) {made c d : Cartridge}
    (hmade : ofImage i = .ok made) (hc : made.Reworked c) (hd : made.Reworked d)
    (hprg : c.prg = d.prg) :
    front { c with workRam := c.workRam.clear } = front { d with workRam := d.workRam.clear } := by
  obtain ⟨himage, rfl⟩ := ofImage_eq_ok_iff.mp hmade
  have hfixed : Board.powerOn i = .fixed (.ofImage i) := by
    unfold Board.powerOn
    rw [hmapper]
    rfl
  have hboard : c.board = d.board :=
    (hc.symm.board_fixed hfixed).trans (hd.symm.board_fixed hfixed).symm
  have hclear {a b : Arena} (hsize : a.size = b.size) : a.clear = b.clear := by
    have hbytes : a.bytes.size = b.bytes.size := hsize
    simp only [Arena.clear, hbytes]
  have hwork : c.workRam.clear = d.workRam.clear := hclear (hc.workRam.symm.trans hd.workRam)
  simp only [front, hboard, hprg, hwork]

end Cartridge

namespace Console

/-! ## Clearing -/

/-- Sample rate and mixing law are the ones that the settings ask for. -/
structure Tuned (c : Console) : Prop where
  sampleRate : c.bus.apu.sampleRate = max c.settings.sampleRate Apu.minSampleRate
  mixing : c.bus.apu.mixing = c.settings.mixing

/-- Two consoles that hold the same image with the same program ROM, under the same settings.  In
all else they may differ. -/
structure Matched (i : Image) (c d : Console) : Prop where
  holding : Holding i c ∧ Holding i d
  settings : c.settings = d.settings
  prg : c.bus.cartridge.map (·.prg) = d.bus.cartridge.map (·.prg)
  tuned : c.Tuned ∧ d.Tuned

/-- Two consoles that the routines of a program cannot tell apart. -/
abbrev SameFront (p : Option Program) (s : Settings) : Console → Console → Prop :=
  Alike Bus.SameFront (fun _ _ => True) p s

section

variable {i : Image} {c d : Console}

/-- After clearing, all that is left to tell the buses apart is pattern memory. -/
theorem Matched.wiped (h : Matched i c d) (hmapper : i.mapper = 0) :
    Bus.SameFront c.bus.wiped d.bus.wiped := by
  obtain ⟨made, hmade, -, cartridge, hc, hcmade⟩ := h.holding.1.held
  obtain ⟨made', hmade', -, cartridge', hd, hdmade⟩ := h.holding.2.held
  cases hmade.symm.trans hmade'
  have hprg : cartridge.prg = cartridge'.prg := by
    have hboth := h.prg
    rw [hc, hd] at hboth
    exact Option.some.inj hboth
  have hrate : c.bus.apu.sampleRate = d.bus.apu.sampleRate := by
    rw [h.tuned.1.sampleRate, h.tuned.2.sampleRate, h.settings]
  have hmixing : c.bus.apu.mixing = d.bus.apu.mixing := by
    rw [h.tuned.1.mixing, h.tuned.2.mixing, h.settings]
  refine ⟨rfl, ?_, ?_⟩
  · change c.bus.apu.reset = d.bus.apu.reset
    unfold Apu.reset
    rw [hrate, hmixing]
  · change (c.bus.cartridge.map _).map _ = (d.bus.cartridge.map _).map _
    rw [hc, hd]
    exact congrArg some (hcmade.front_cleared hmapper hmade hdmade hprg)

/-- Nothing of what the consoles were before reaches the initialization routine. -/
theorem Matched.cleared (h : Matched i c d) (hmapper : i.mapper = 0) (track : UInt8) :
    SameFront (some (.ofImage i)) c.settings (c.cleared track) (d.cleared track) := by
  obtain ⟨-, -, hprogram, -⟩ := h.holding.1.held
  obtain ⟨-, -, hprogram', -⟩ := h.holding.2.held
  -- resetting the processor discards its state before it reads the vector
  let blank (c : Console) : Console :=
    { c with cpu := .powerOn, bus := c.bus.wiped, nmiRequested := false }
  have hblank : SameFront (some (.ofImage i)) c.settings (blank c) (blank d) :=
    ⟨rfl, h.wiped hmapper, ⟨hprogram, hprogram'⟩, ⟨rfl, h.settings.symm⟩, rfl, trivial⟩
  have hreset : Respects (SameFront (some (.ofImage i)) c.settings)
      (exec Exec.reset : StateM Console Unit) :=
    respects_exec (Exec.respects_reset Bus.sameFront_congruence.1)
  obtain ⟨-, hrestarted⟩ := hreset _ _ hblank
  exact {
    cpu := congrArg (fun cpu : Cpu => { cpu with a := track, x := 0 }) hrestarted.cpu
    bus := ⟨hrestarted.bus.ram, congrArg enableSound hrestarted.bus.apu, hrestarted.bus.cartridge⟩
    program := hrestarted.program
    settings := hrestarted.settings
    nmiRequested := rfl
    clock := trivial }

end

/-! ## Playing and listening -/

/-- What a host does with a track: it plays a frame or pulls samples. -/
inductive Play
  | frame
  | samples (n : Nat)

/-- What comes of it. -/
inductive Heard
  | frame (result : Except Error Unit)
  | samples (bytes : Array UInt8)

/-- Play a frame or pull samples. -/
def Play.run : Play → StateM Console Heard
  | .frame => fun c =>
    let (result, c) := advanceTrack.run c
    (.frame result, c)
  | .samples n => fun c =>
    let (bytes, c) := takeSamples n c
    (.samples bytes, c)

/-- All that comes of a list of plays, and the console after them. -/
def listen : List Play → Console → List Heard × Console
  | [], c => ([], c)
  | play :: rest, c =>
    let (heard, c) := play.run c
    let (later, c) := listen rest c
    (heard :: later, c)

/-- Processor, RAM, work RAM, requested interrupt and audio unit are the same. -/
structure SameMachine (c d : Console) : Prop where
  cpu : c.cpu = d.cpu
  ram : c.bus.ram = d.bus.ram
  workRam : c.bus.cartridge.map (·.workRam) = d.bus.cartridge.map (·.workRam)
  nmiRequested : c.nmiRequested = d.nmiRequested
  apu : c.bus.apu = d.bus.apu

section

variable {p : Option Program} {s : Settings} {c d : Console}

/-- What a listener can find is what alike consoles share. -/
theorem Alike.sameMachine (h : SameFront p s c d) : SameMachine c d :=
  ⟨h.cpu, h.bus.ram, h.bus.look fun _ => rfl, h.nmiRequested, h.bus.apu⟩

/-- All that is played of a track runs programs only. -/
theorem respects_play (play : Play) : Respects (SameFront p s) play.run := by
  intro c d h
  cases play with
  | frame =>
    obtain ⟨hresult, hafter⟩ := respects_advanceTrack Bus.sameFront_congruence c d h
    exact ⟨congrArg Heard.frame hresult, hafter⟩
  | samples n =>
    have hsamples : c.bus.apu.samples n = d.bus.apu.samples n := congrArg (Apu.samples n) h.bus.apu
    obtain ⟨hbytes, hapu⟩ := Prod.ext_iff.mp hsamples
    exact ⟨congrArg Heard.samples hbytes, h.cpu, ⟨h.bus.ram, hapu, h.bus.cartridge⟩, h.program,
      h.settings, h.nmiRequested, h.clock⟩

/-- Whatever is played, the same is heard. -/
theorem Alike.listen_eq (h : SameFront p s c d) (plays : List Play) :
    (listen plays c).1 = (listen plays d).1 ∧
      SameFront p s (listen plays c).2 (listen plays d).2 := by
  induction plays generalizing c d with
  | nil => exact ⟨rfl, h⟩
  | cons play rest ih =>
    obtain ⟨hheard, hafter⟩ := respects_play play c d h
    obtain ⟨hlater, hlast⟩ := ih hafter
    exact ⟨List.cons_eq_cons.mpr ⟨hheard, hlater⟩, hlast⟩

end

/-! ## Starting a track -/

/-- **A track starts from nothing.**  Two consoles hold the same image of a sound program, with the
same program ROM and under the same settings; whatever else has become of them, starting a track
gives the same result on both and leaves them with the same processor, RAM, work RAM, requested
interrupt and audio unit.  So does all that is played of the track then, and the same is heard. -/
theorem startTrack_forgets {data : Array UInt8} {load : UInt16} {sound : SoundProgram} {i : Image}
    (himage : Image.soundProgram data load sound = .ok i) {c d : Console} (h : Matched i c d)
    {track : UInt8} (htrack : track < sound.tracks) :
    let started := (startTrack track).run c
    let started' := (startTrack track).run d
    started.1 = started'.1 ∧ SameMachine started.2 started'.2 ∧
      ∀ plays : List Play, (listen plays started.2).1 = (listen plays started'.2).1 ∧
        SameMachine (listen plays started.2).2 (listen plays started'.2).2 := by
  obtain ⟨hmapper, hsound⟩ := Image.soundProgram_inv himage
  -- the track exists, so starting it is clearing and calling its routine
  have hstart {e : Console} (he : Holding i e) :
      (startTrack track).run e = (callInit sound track).run (e.cleared track) := by
    obtain ⟨-, -, hprogram, -⟩ := he.held
    have hfound : e.program.bind (·.sound) = some sound := by
      rw [hprogram]
      exact hsound
    rw [startTrack_run, hfound]
    exact if_neg (UInt8.not_le.mpr htrack)
  obtain ⟨hresult, hafter⟩ := respects_callInit Bus.sameFront_congruence sound track _ _
    (h.cleared hmapper track)
  dsimp only
  rw [hstart h.holding.1, hstart h.holding.2]
  refine ⟨hresult, hafter.sameMachine, fun plays => ?_⟩
  obtain ⟨hheard, hlast⟩ := hafter.listen_eq plays
  exact ⟨hheard, hlast.sameMachine⟩

/-- Initialization counts in work RAM and loads what it has counted; a frame does nothing. -/
def counting : Array UInt8 := #[0xEE, 0x00, 0x60, 0xAD, 0x00, 0x60, 0x60]

/-- A requested interrupt and a byte in work RAM leave no trace in the track. -/
theorem startTrack_forgets_counting :
    ∃ i, Image.soundProgram counting 0x8000 ⟨0x8000, 0x8006, 1⟩ = .ok i ∧
      let c := powerOn.acted (.load i)
      let d := (c.acted .raiseNmi).acted (.busWrite 0x6000 7)
      Matched i c d ∧ (0 : UInt8) < 1 ∧ c.nmiRequested = false ∧ d.nmiRequested = true ∧
        SameMachine ((startTrack 0).run c).2 ((startTrack 0).run d).2 ∧
        ((startTrack 0).run d).2.cpu.a = 1 := by
  have himage : Image.soundProgram counting 0x8000 ⟨0x8000, 0x8006, 1⟩ = .ok _ := rfl
  refine ⟨_, himage, ?_⟩
  intro c d
  have hloaded : Holding _ c := .loaded (Run.run_of_isOk (c := powerOn) rfl)
  have hprg : c.bus.cartridge.map (·.prg) = d.bus.cartridge.map (·.prg) := by
    change _ = (c.bus.cartridge.map (·.write 0x6000 7)).map (·.prg)
    rw [Option.map_map]
    exact congrArg (Option.map · _) (funext fun e => (e.acted_prg (.write 0x6000 7)).symm)
  have hmatched : Matched _ c d :=
    { holding := ⟨hloaded, .acted (.busWrite 0x6000 7) rfl (.acted .raiseNmi rfl hloaded)⟩
      settings := rfl
      prg := hprg
      tuned := ⟨⟨rfl, rfl⟩, ⟨rfl, rfl⟩⟩ }
  obtain ⟨-, hsame, -⟩ := startTrack_forgets himage hmatched (by decide : (0 : UInt8) < 1)
  exact ⟨hmatched, by decide, rfl, rfl, hsame, by decide +kernel⟩

end Console

end Famicom
