import Famicom.Console.Load
import Famicom.Proofs.Console.Uniform
import Famicom.Proofs.Sound.Still

/-!
# Listening does not change the program

A host that pulls samples runs the timers of the audio unit, by a number of clocks that depends on
the sample rate and on a fraction carried along.  Programs do not notice: between two runs of the
same commands, with and without samples pulled in between, no reply differs and nothing else of the
console but those timers.

* `Bus.still_congruence` — buses that differ in the running timers only cannot be told apart.
* `Alike.undergo_eq` — alike consoles, one of which is listened to, give the same sights.
* `listening_unseen` — any run with samples pulled is like the run of its commands.
-/

namespace Famicom

open Sound

/-! ## Buses -/

namespace Bus

/-- The bus without what the timers of its audio unit run. -/
def still (b : Bus) : Bus := { b with apu := b.apu.still }

/-- The buses differ in the running timers at most. -/
def SameStill (b e : Bus) : Prop := b.still = e.still

/-- What a fetch gives does not depend on the timers. -/
theorem still_fetch (addr : UInt16) (b : Bus) :
    b.still.fetch addr = ((b.fetch addr).1, (b.fetch addr).2.still) := by
  obtain ⟨ram, apu, cartridge, counters⟩ := b
  unfold fetch
  split
  · rfl
  · rfl
  · split <;> rfl
  · cases cartridge <;> rfl

/-- A store to the audio unit may set timers off, but reads none of them. -/
theorem still_store (addr : UInt16) (value : UInt8) (b : Bus) :
    (b.store addr value).still = b.still.store addr value := by
  unfold store
  split
  · rfl
  · rfl
  · exact congrArg (fun apu => { b with apu }) (b.apu.still_write addr value)
  · rfl

theorem still_stepSequencer (b : Bus) :
    { b with apu := b.apu.stepSequencer }.still =
      { b.still with apu := b.still.apu.stepSequencer } :=
  congrArg (fun apu => { b with apu }) b.apu.still_stepSequencer

theorem irqLine_still (b : Bus) : b.still.irqLine = b.irqLine := rfl

/-- A read of the processor, its count included. -/
theorem still_read (addr : UInt16) (b : Bus) :
    AddressSpace.read addr b.still =
      ((AddressSpace.read addr b).1, (AddressSpace.read addr b).2.still) :=
  still_fetch addr (b.count addr Tally.read)

theorem still_write (addr : UInt16) (value : UInt8) (b : Bus) :
    (AddressSpace.write addr value b).still = AddressSpace.write addr value b.still :=
  still_store addr value (b.count addr Tally.write)

/-- Pattern memory does not know the audio unit. -/
theorem still_chrRead (addr : UInt16) (b : Bus) :
    b.still.chrRead addr = ((b.chrRead addr).1, (b.chrRead addr).2.still) := by
  obtain ⟨ram, apu, cartridge, counters⟩ := b
  cases cartridge <;> rfl

/-- A change that leaves the running timers alone, but for stopping them, keeps buses that differ in
nothing else so. -/
theorem SameStill.map {f : Bus → Bus} (hf : ∀ b, (f b).still = (f b.still).still) {b e : Bus}
    (h : SameStill b e) : SameStill (f b) (f e) := by
  unfold SameStill at h ⊢
  rw [hf b, hf e, h]

/-- Buses that differ in the running timers only cannot be told apart. -/
theorem still_congruence : Congruence SameStill := by
  constructor
  -- each access is the access to the bus whose timers are put to rest
  case toCongruence =>
    constructor
    · intro b e addr h
      have hfst (b : Bus) : (AddressSpace.read addr b.still).1 = (AddressSpace.read addr b).1 :=
        (congrArg Prod.fst (still_read addr b) :)
      rw [← hfst b, ← hfst e, h]
    · intro b e addr h
      have hsnd (b : Bus) :
          (AddressSpace.read addr b.still).2 = (AddressSpace.read addr b).2.still :=
        (congrArg Prod.snd (still_read addr b) :)
      calc (AddressSpace.read addr b).2.still
        _ = (AddressSpace.read addr b.still).2 := (hsnd b).symm
        _ = (AddressSpace.read addr e.still).2 := by rw [h]
        _ = (AddressSpace.read addr e).2.still := hsnd e
    · intro b e addr value h
      exact (still_write addr value b).trans
        ((congrArg (AddressSpace.write addr value) h).trans (still_write addr value e).symm)
  · exact fun b e h => congrArg (·.cartridge.isSome) h
  · exact fun b e h => (irqLine_still b).symm.trans ((congrArg irqLine h).trans (irqLine_still e))
  · exact fun b e cycles h => h.map (f := (·.tick cycles)) fun _ => rfl
  · exact fun b e h => h.map (f := clockScanline) fun _ => rfl
  · intro b e h
    exact (still_stepSequencer b).trans
      ((congrArg (fun b : Bus => { b with apu := b.apu.stepSequencer }) h).trans
        (still_stepSequencer e).symm)

end Bus

namespace Console

/-! ## Commands -/

/-- Read a byte through the bus. -/
def busRead (addr : UInt16) : StateM Console UInt8 := fun c =>
  let (value, bus) := AddressSpace.read addr c.bus
  (value, { c with bus })

/-- Fetch a byte of pattern memory through the bus. -/
def patternRead (addr : UInt16) : StateM Console UInt8 := fun c =>
  let (value, bus) := c.bus.chrRead addr
  (value, { c with bus })

/-- Something that a host asks a console to do, other than pulling samples. -/
inductive Command
  | step
  | runFrame
  | raiseNmi
  | reset
  | busRead (addr : UInt16)
  | busWrite (addr : UInt16) (value : UInt8)
  | patternRead (addr : UInt16)
  | patternWrite (addr : UInt16) (value : UInt8)

/-- What a command answers. -/
inductive Reply
  | done
  | cycles (n : Nat)
  | byte (value : UInt8)
  deriving DecidableEq, Repr

/-- Carry a command out. -/
def Command.run : Command → Run Reply
  | .step => return .cycles (← Console.step)
  | .runFrame => do Console.runFrame; return .done
  | .raiseNmi => do Console.raiseNmi; return .done
  | .reset => do Console.reset; return .done
  | .busRead addr => return .byte (← Console.busRead addr)
  | .busWrite addr value => do onBus (AddressSpace.write addr value); return .done
  | .patternRead addr => return .byte (← Console.patternRead addr)
  | .patternWrite addr value => do onBus (·.chrWrite addr value); return .done

/-- What happens to a console: a command is carried out, the host pulls samples, or the timers of
the audio unit are run by some clocks, as pulling a sample would do with another fraction carried
along. -/
inductive Happening
  | command (c : Command)
  | samples (n : Nat)
  | clocks (n : Nat)

/-- The command among what can happen. -/
def Happening.command? : Happening → Option Command
  | .command c => some c
  | _ => none

/-! ## Sights -/

/-- Run the timers of the audio unit. -/
def runTimers (clocks : Nat) (c : Console) : Console :=
  { c with bus := { c.bus with apu := c.bus.apu.runTimers clocks } }

/-- All of the console that a program can see, all of its cartridge, and the audio unit without what
its timers run. -/
structure Outlook where
  cpu : Cpu
  ram : Vector UInt8 2048
  cartridge : Option Cartridge
  irqLine : Bool
  nmiRequested : Bool
  apu : Apu

/-- The present outlook. -/
def outlook (c : Console) : Outlook :=
  ⟨c.cpu, c.bus.ram, c.bus.cartridge, c.bus.irqLine, c.nmiRequested, c.bus.apu.still⟩

/-- The reply to each command and the outlook after it, and the console at the end. -/
def carryOut : List Command → Console → List (Except Error Reply × Outlook) × Console
  | [], c => ([], c)
  | command :: rest, c =>
    let (reply, d) := command.run.run c
    let (sights, last) := carryOut rest d
    ((reply, d.outlook) :: sights, last)

/-- The reply to each command among what happens and the outlook after it, and the console at the
end. -/
def undergo : List Happening → Console → List (Except Error Reply × Outlook) × Console
  | [], c => ([], c)
  | .command command :: rest, c =>
    let (reply, d) := command.run.run c
    let (sights, last) := undergo rest d
    ((reply, d.outlook) :: sights, last)
  | .samples n :: rest, c => undergo rest (takeSamples n c).2
  | .clocks n :: rest, c => undergo rest (c.runTimers n)

/-! ## Commands cannot tell -/

variable {p : Option Program} {s : Settings} {c d : Console}

/-- The consoles differ in the running timers at most, and in records that no command reads. -/
abbrev SameStill (p : Option Program) (s : Settings) : Console → Console → Prop :=
  Alike Bus.SameStill Eq p s

/-- A reset silences both units alike. -/
theorem respects_reset : Respects (SameStill p s) reset := by
  unfold reset
  have hsilence {b e : Bus} (h : Bus.SameStill b e) :
      Bus.SameStill { b with apu := b.apu.reset }.clearCounters
        { e with apu := e.apu.reset }.clearCounters :=
    h.map (f := fun b => { b with apu := b.apu.reset }.clearCounters) fun _ => rfl
  refine .observe ?_ fun c => .ite ?_ (.pure _)
  · intro c d h
    have hpresent : c.hasProgram = d.hasProgram := Bus.still_congruence.present _ _ h.bus
    simp only [hpresent]
  · refine .bind (respects_onBus fun _ _ => hsilence) fun _ =>
      .bind (respects_exec (Exec.respects_reset Bus.still_congruence.1)) fun _ =>
        .bind (.update ?_) fun _ => .observe ?_ fun d => respects_report _
    · exact fun c d h => ⟨h.cpu, h.bus, h.program, h.settings, rfl, rfl⟩
    · intro c d h
      simp only [h.cpu]

/-- A read by the host gives both the same byte. -/
theorem respects_busRead (addr : UInt16) : Respects (SameStill p s) (busRead addr) := by
  intro c d h
  exact ⟨Bus.still_congruence.read_eq _ _ addr h.bus, h.cpu,
    Bus.still_congruence.read _ _ addr h.bus, h.program, h.settings, h.nmiRequested, h.clock⟩

/-- A read of pattern memory gives both the same byte. -/
theorem respects_patternRead (addr : UInt16) : Respects (SameStill p s) (patternRead addr) := by
  intro c d h
  have hread : ((c.bus.chrRead addr).1, (c.bus.chrRead addr).2.still) =
      ((d.bus.chrRead addr).1, (d.bus.chrRead addr).2.still) := by
    rw [← Bus.still_chrRead, ← Bus.still_chrRead, h.bus]
  obtain ⟨hvalue, hbus⟩ := Prod.ext_iff.mp hread
  exact ⟨hvalue, h.cpu, hbus, h.program, h.settings, h.nmiRequested, h.clock⟩

/-- Commands cannot tell where the timers stand. -/
theorem respects_command (command : Command) : Respects (SameStill p s) command.run.run := by
  have hbus := Bus.still_congruence
  cases command with
  | step => exact .run_bind (respects_step hbus) fun _ => .run_pure _
  | runFrame => exact .run_bind (respects_runFrame hbus) fun _ => .run_pure _
  | raiseNmi => exact .run_bind (.run_lift respects_raiseNmi) fun _ => .run_pure _
  | reset => exact .run_bind (.run_lift respects_reset) fun _ => .run_pure _
  | busRead addr => exact .run_bind (.run_lift (respects_busRead addr)) fun _ => .run_pure _
  | busWrite addr value =>
    exact .run_bind (.run_lift (respects_onBus fun b e => hbus.write b e addr value)) fun _ =>
      .run_pure _
  | patternRead addr =>
    exact .run_bind (.run_lift (respects_patternRead addr)) fun _ => .run_pure _
  | patternWrite addr value =>
    have hwrite (b e : Bus) (h : Bus.SameStill b e) :
        Bus.SameStill (b.chrWrite addr value) (e.chrWrite addr value) :=
      h.map (f := Bus.chrWrite addr value) fun _ => rfl
    exact .run_bind (.run_lift (respects_onBus hwrite)) fun _ => .run_pure _

/-! ## Listening -/

/-- Replacing the audio unit by one that differs in the running timers at most cannot be told. -/
theorem Alike.setApu (h : SameStill p s c d) {apu : Apu} (hapu : apu.still = c.bus.apu.still) :
    SameStill p s { c with bus := { c.bus with apu } } d := by
  have hbus : Bus.SameStill { c.bus with apu } c.bus :=
    congrArg (fun apu : Apu => ({ c.bus with apu } : Bus)) hapu
  exact ⟨h.cpu, hbus.trans h.bus, h.program, h.settings, h.nmiRequested, h.clock⟩

/-- The outlook leaves the timers out. -/
theorem Alike.outlook_eq (h : SameStill p s c d) : c.outlook = d.outlook := by
  have hbus : c.bus.still = d.bus.still := h.bus
  have hram : c.bus.ram = d.bus.ram := (congrArg Bus.ram hbus :)
  have hcartridge : c.bus.cartridge = d.bus.cartridge := (congrArg Bus.cartridge hbus :)
  have hapu : c.bus.apu.still = d.bus.apu.still := (congrArg Bus.apu hbus :)
  have hirq : c.bus.irqLine = d.bus.irqLine := Bus.still_congruence.irqLine _ _ h.bus
  unfold outlook
  rw [h.cpu, hram, hcartridge, hirq, h.nmiRequested, hapu]

/-- A console that is listened to gives the same sights as one that is not. -/
theorem Alike.undergo_eq (h : SameStill p s c d) (happenings : List Happening) :
    let heard := undergo happenings c
    let unheard := carryOut (happenings.filterMap Happening.command?) d
    heard.1 = unheard.1 ∧ SameStill p s heard.2 unheard.2 := by
  -- A command moves both consoles; samples and clocks move the first only, and leave it alike.
  induction happenings generalizing c d with
  | nil => exact ⟨rfl, h⟩
  | cons happening rest ih =>
    cases happening with
    | command command =>
      obtain ⟨hreply, hafter⟩ := respects_command command c d h
      obtain ⟨hsights, hlast⟩ := ih hafter
      refine ⟨?_, hlast⟩
      have hsight : ((command.run.run c).1, (command.run.run c).2.outlook) =
          ((command.run.run d).1, (command.run.run d).2.outlook) := by
        rw [hreply, hafter.outlook_eq]
      exact List.cons_eq_cons.mpr ⟨hsight, hsights⟩
    | samples n => exact ih (h.setApu (c.bus.apu.still_samples n))
    | clocks n => exact ih (h.setApu (c.bus.apu.still_runTimers n))

/-- **Listening.**  Whatever commands are carried out, and whenever and however many samples are
pulled in between, each command gives the reply and leads to the outlook that it would without
listening; and so does the whole run. -/
theorem listening_unseen (c : Console) (happenings : List Happening) :
    let heard := undergo happenings c
    let unheard := carryOut (happenings.filterMap Happening.command?) c
    heard.1 = unheard.1 ∧ heard.2.outlook = unheard.2.outlook := by
  have hsame : SameStill c.program c.settings c c :=
    ⟨rfl, rfl, ⟨rfl, rfl⟩, ⟨rfl, rfl⟩, rfl, rfl⟩
  obtain ⟨hsights, hlast⟩ := hsame.undergo_eq happenings
  exact ⟨hsights, hlast.outlook_eq⟩

end Console

end Famicom
