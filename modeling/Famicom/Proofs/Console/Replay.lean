import Famicom.Proofs.Console.Reachable
import Famicom.Proofs.Sound.Visible

/-!
# Replaying from a snapshot

A console that goes back to its snapshot after some play goes on as it would have gone on then, but
for two things that snapshots do not hold: a requested interrupt is dropped, and the frame clock
runs on from where it is.

* `restored_replays` — what can be watched after going back.
-/

namespace Famicom

/-! ## Buses that look alike -/

namespace Bus

/-- Two buses that a program cannot tell apart. -/
structure LooksLike (b e : Bus) : Prop where
  ram : b.ram = e.ram
  apu : b.apu.LooksLike e.apu
  cartridge : b.cartridge = e.cartridge

/-- Reads do not look at where the timers stand, and move both buses alike. -/
theorem LooksLike.fetch {b e : Bus} (h : LooksLike b e) (addr : UInt16) :
    (b.fetch addr).1 = (e.fetch addr).1 ∧ LooksLike (b.fetch addr).2 (e.fetch addr).2 := by
  unfold Bus.fetch
  split
  · exact ⟨congrArg (·[ramCell addr]) h.ram, h⟩
  · exact ⟨rfl, h⟩
  · split
    · exact ⟨h.apu.status_eq, h.ram, h.apu.readStatus, h.cartridge⟩
    · exact ⟨rfl, h⟩
  · rw [h.cartridge]
    split
    · exact ⟨rfl, h⟩
    · exact ⟨rfl, h⟩

theorem LooksLike.store {b e : Bus} (h : LooksLike b e) (addr : UInt16) (value : UInt8) :
    LooksLike (b.store addr value) (e.store addr value) := by
  unfold Bus.store
  split
  · exact ⟨congrArg (·.set (ramCell addr) value) h.ram, h.apu, h.cartridge⟩
  · exact h
  · exact ⟨h.ram, h.apu.write addr value, h.cartridge⟩
  · exact ⟨h.ram, h.apu, congrArg (Option.map (·.write addr value)) h.cartridge⟩

/-- **Buses that look alike** go on looking alike under whatever a program does. -/
theorem looksLike_congruence : Congruence LooksLike := by
  constructor
  case toCongruence =>
    have hcount {b e : Bus} (h : LooksLike b e) (addr : UInt16) (f : Tally → Tally) :
        LooksLike (b.count addr f) (e.count addr f) := ⟨h.ram, h.apu, h.cartridge⟩
    constructor
    · exact fun b e addr h => ((hcount h addr Tally.read).fetch addr).1
    · exact fun b e addr h => ((hcount h addr Tally.read).fetch addr).2
    · exact fun b e addr value h => (hcount h addr Tally.write).store addr value
  · exact fun b e h => congrArg Option.isSome h.cartridge
  · intro b e h
    unfold irqLine
    rw [h.apu.irqPending_eq, h.cartridge]
  · exact fun b e cycles h =>
      ⟨h.ram, h.apu, congrArg (Option.map (Cartridge.ticks cycles)) h.cartridge⟩
  · exact fun b e h => ⟨h.ram, h.apu, congrArg (Option.map Cartridge.clockScanline) h.cartridge⟩
  · exact fun b e h => ⟨h.ram, h.apu.stepSequencer, h.cartridge⟩

/-! ## The cartridge during play -/

/-- The bus carries a cartridge that play may have made of `c`. -/
def Carries (c : Cartridge) (b : Bus) : Prop := ∃ d, b.cartridge = some d ∧ c.Kin d

/-- An act of the cartridge leaves it kin to what it was. -/
theorem Carries.acted {c : Cartridge} {b : Bus} (h : b.Carries c) (a : Cartridge.Act) :
    { b with cartridge := b.cartridge.map (Cartridge.acted · a) }.Carries c := by
  obtain ⟨d, hd, hkin⟩ := h
  exact ⟨d.acted a, congrArg (Option.map (Cartridge.acted · a)) hd, hkin.trans (d.kin_acted a)⟩

/-- Running a program keeps the cartridge kin to what it was. -/
theorem carries_closed (c : Cartridge) : Closed (Carries c) :=
  .of_parts (fun _ _ h => h) (fun _ _ h => h) (fun _ _ h => h) fun _ a h => h.acted a

end Bus

namespace Console

/-! ## Playing on -/

/-- Acts that play a program on: no other image, settings, patches or cartridge, and nothing done
past the processor. -/
def Act.isPlay : Act → Bool
  | .step | .runFrame | .raiseNmi | .takeSamples _ => true
  | _ => false

/-- A console on which `c` is played with a program and settings. -/
structure Plays (p : Option Program) (s : Settings) (c : Cartridge) (k : Console) : Prop where
  program : k.program = p
  settings : k.settings = s
  bus : k.bus.Carries c

/-- Play goes on with the same program, settings and kin of cartridge. -/
theorem Plays.acted {p : Option Program} {s : Settings} {c : Cartridge} {k : Console}
    (h : Plays p s c k) {a : Act} (ha : a.isPlay) : Plays p s c (k.acted a) := by
  have hR := (Bus.carries_closed c).congruence
  cases a with
  | step =>
    obtain ⟨hprogram, hsettings, hbus⟩ := (respects_step hR).keeps_bus h.program h.settings h.bus
    exact ⟨hprogram, hsettings, hbus⟩
  | runFrame =>
    obtain ⟨hprogram, hsettings, hbus⟩ :=
      (respects_runFrame hR).keeps_bus h.program h.settings h.bus
    exact ⟨hprogram, hsettings, hbus⟩
  | raiseNmi => exact ⟨h.program, h.settings, h.bus⟩
  | takeSamples n => exact ⟨h.program, h.settings, h.bus⟩
  | _ => cases ha

/-- However long a program is played on, an earlier state can be restored. -/
theorem Plays.run {p : Option Program} {s : Settings} {c : Cartridge} {k : Console}
    (h : Plays p s c k) {acts : List Act} (hacts : ∀ a ∈ acts, a.isPlay) :
    Plays p s c (acts.foldl Console.acted k) := by
  induction acts generalizing k with
  | nil => exact h
  | cons a rest ih =>
    obtain ⟨ha, hrest⟩ := List.forall_mem_cons.mp hacts
    exact ih (h.acted ha) hrest

/-! ## Watching -/

/-- A call that runs a program. -/
inductive Call
  | step
  | runFrame
  | raiseNmi
  deriving DecidableEq, Repr

/-- Make a call; a step gives its cycles. -/
def Call.run : Call → Run (Option Nat)
  | .step => some <$> Console.step
  | .runFrame => do Console.runFrame; return none
  | .raiseNmi => do Console.raiseNmi; return none

/-- What can be watched of a console at one moment. -/
structure Moment where
  cpu : Cpu
  ram : Vector UInt8 2048
  cartridge : Option Cartridge
  sequencer : Sound.Sequencer

/-- The present moment. -/
def moment (c : Console) : Moment := ⟨c.cpu, c.bus.ram, c.bus.cartridge, c.bus.apu.sequencer⟩

/-- What can be watched of a call: its result, the moment it leads to and, for a frame, the moment
after each instruction with the sequencer steps and scanlines that have been fired by then. -/
structure Sight where
  result : Except Error (Option Nat)
  instructions : List (Moment × FrameProgress)
  last : Moment

/-- What can be watched of a call on a console. -/
def Call.sight (call : Call) (c : Console) : Sight where
  result := (call.run.run c).1
  instructions := match call with
    | .runFrame => (List.range (c.settings.cyclesPerFrame.toNat + 1)).map fun k =>
        let d := ((runCycles k).run c).2
        (d.moment, d.clock)
    | _ => []
  last := (call.run.run c).2.moment

/-- What can be watched of a sequence of calls. -/
def watch : List Call → Console → List Sight
  | [], _ => []
  | call :: calls, c => call.sight c :: watch calls (call.run.run c).2

/-! ## Alike consoles cannot be told apart -/

variable {R : Bus → Bus → Prop} {K : FrameProgress → FrameProgress → Prop} {p : Option Program}
  {s : Settings} {c d : Console}

/-- Only frames look at the frame clock. -/
theorem respects_call (hR : Bus.Congruence R) {call : Call} (hK : call = .runFrame → K = Eq) :
    Respects (Alike R K p s) call.run.run := by
  cases call with
  | step => exact .run_bind (respects_step hR) fun cycles => .run_pure _
  | runFrame =>
    obtain rfl := hK rfl
    exact .run_bind (respects_runFrame hR) fun _ => .run_pure _
  | raiseNmi => exact .run_bind (.run_lift respects_raiseNmi) fun _ => .run_pure _

theorem Alike.moment_eq (h : Alike Bus.LooksLike K p s c d) : c.moment = d.moment := by
  unfold moment
  rw [h.cpu, h.bus.ram, h.bus.cartridge, h.bus.apu.sequencer]

/-- Any number of instructions leads alike consoles to the same moment. -/
theorem Alike.instructions_eq (h : Alike Bus.LooksLike Eq p s c d) (k : Nat) :
    ((runCycles k).run c).2.moment = ((runCycles k).run d).2.moment ∧
      ((runCycles k).run c).2.clock = ((runCycles k).run d).2.clock := by
  obtain ⟨-, hafter⟩ := respects_runCycles Bus.looksLike_congruence k c d h
  exact ⟨hafter.moment_eq, hafter.clock⟩

/-- A call shows the same on both; a frame needs their clocks to agree as well. -/
theorem Alike.sight_eq (h : Alike Bus.LooksLike K p s c d) {call : Call}
    (hK : call = .runFrame → K = Eq) : call.sight c = call.sight d := by
  obtain ⟨hresult, hafter⟩ := respects_call Bus.looksLike_congruence hK c d h
  unfold Call.sight
  rw [hresult, hafter.moment_eq]
  cases call with
  | step => rfl
  | runFrame =>
    obtain rfl := hK rfl
    simp only [h.instructions_eq, h.settings.1, h.settings.2]
  | raiseNmi => rfl

/-- Whatever calls are made, alike consoles cannot be told apart. -/
theorem Alike.watch_eq (h : Alike Bus.LooksLike K p s c d) (calls : List Call)
    (hK : .runFrame ∈ calls → K = Eq) : watch calls c = watch calls d := by
  induction calls generalizing c d with
  | nil => rfl
  | cons call rest ih =>
    have hcall (heq : call = .runFrame) : K = Eq := hK (heq ▸ List.mem_cons_self)
    have hrest (hmem : .runFrame ∈ rest) : K = Eq := hK (List.mem_cons_of_mem call hmem)
    obtain ⟨-, hafter⟩ := respects_call Bus.looksLike_congruence hcall c d h
    unfold watch
    rw [h.sight_eq hcall, ih hafter hrest]

/-! ## Going back -/

/-- Adopting a saved unit gives one that looks like it, if its sequencer is in range. -/
theorem adoptApu_looksLike (s : Settings) {a : Sound.Apu} (h : a.sequencer.InRange) :
    (adoptApu s a).LooksLike a := by
  have hrate : (a.confine.withSampleRate s.sampleRate).LooksLike a.confine :=
    ⟨rfl, rfl, rfl, rfl, rfl⟩
  unfold adoptApu
  exact ((Sound.Apu.looksLike_withMixing _ _).trans hrate).trans (Sound.Apu.looksLike_confine h)

/-- Whatever was played since a snapshot, going back to it leads to a console like the one then, but
for the requested interrupt and the frame clock. -/
theorem alike_restored {m : Console} (hm : m.Sound) (hp : m.program.isSome) :
    ∃ s, m.snapshot = .ok s ∧
      ∀ acts : List Act, (∀ a ∈ acts, a.isPlay) →
        let n := acts.foldl acted m
        ∃ r, (restore s).run n = (.ok (), r) ∧
          ∀ (K : FrameProgress → FrameProgress → Prop) (clock : FrameProgress), K n.clock clock →
            Alike Bus.LooksLike K m.program m.settings r
              { m with nmiRequested := false, clock } := by
  obtain ⟨program, hprogram⟩ := Option.isSome_iff_exists.mp hp
  obtain ⟨c, hc⟩ := Option.isSome_iff_exists.mp (hm.present hp)
  refine ⟨m.snapshotOf c program, snapshot_eq_ok hc hprogram, ?_⟩
  intro acts hacts n
  -- the cartridge of `n` is kin to that of `m`, so the saved state fits it
  have hplays : Plays m.program m.settings c n :=
    Plays.run ⟨rfl, rfl, c, hc, .refl c⟩ hacts
  obtain ⟨d, hd, hkin⟩ := hplays.bus
  have hfits : Fits (m.snapshotOf c program) n c :=
    { version := rfl
      program := ⟨program, hplays.program.trans hprogram, rfl⟩
      ram := m.bus.ram.size_toArray
      cartridge := ⟨d, hd, hkin.restore_eq_ok c.restore_save⟩ }
  refine ⟨_, hfits.restore_eq, ?_⟩
  intro K clock hK
  exact {
    cpu := rfl
    bus := ⟨rfl, adoptApu_looksLike n.settings hm.apu.sequencer, hc.symm⟩
    program := ⟨hplays.program, rfl⟩
    settings := ⟨hplays.settings, rfl⟩
    nmiRequested := rfl
    clock := hK }

/-- **Replay.**  A console with a program can take a snapshot, and however long the program is
played on, it can go back to it.  Nothing of the play is left then: whatever is called, the console
does what it would have done at the snapshot with no interrupt requested.  Frames are promised this
if the frame clock stands where it stood. -/
theorem restored_replays {m : Console} (hm : Reachable m) (hp : m.program.isSome) :
    ∃ s, m.snapshot = .ok s ∧
      ∀ acts : List Act, (∀ a ∈ acts, a.isPlay) →
        let n := acts.foldl acted m
        ∃ r, (restore s).run n = (.ok (), r) ∧
          ∀ calls : List Call, (.runFrame ∈ calls → n.clock = m.clock) →
            watch calls r = watch calls { m with nmiRequested := false } ∧
              (m.nmiRequested = false → watch calls r = watch calls m) := by
  obtain ⟨s, hs, hrestored⟩ := alike_restored (Sound.of_reachable hm) hp
  refine ⟨s, hs, fun acts hacts => ?_⟩
  obtain ⟨r, hr, halike⟩ := hrestored acts hacts
  refine ⟨r, hr, fun calls hcalls => ?_⟩
  have hwatch : watch calls r = watch calls { m with nmiRequested := false } := by
    -- if the clocks agree, frames can be compared; if not, none is called
    by_cases hclock : (acts.foldl acted m).clock = m.clock
    · exact (halike Eq m.clock hclock).watch_eq calls fun _ => rfl
    · exact (halike (fun _ _ => True) m.clock trivial).watch_eq calls fun hframe =>
        absurd (hcalls hframe) hclock
  refine ⟨hwatch, fun hnmi => ?_⟩
  have hsame : { m with nmiRequested := false } = m := by rw [← hnmi]
  exact hwatch.trans (congrArg (watch calls) hsame)

/-- The image of a sound program of NOPs, with all vectors at its start. -/
def nops : Image where
  mapper := 0
  mirroring := .horizontal
  fourScreen := false
  battery := false
  prg := #[0xEA, 0xEA, 0xEA, 0xEA, 0xEA, 0xEA, 0xEA, 0xEA, 0xEA, 0xEA,
    0xF0, 0xFF, 0xF0, 0xFF, 0xF0, 0xFF]
  chr := Array.replicate Image.chrRamSize 0
  chrIsRam := true
  workRamSize := Image.minWorkRam
  loadAddress := 0xFFF0
  sound := some ⟨0xFFF0, 0xFFF0, 1⟩

/-- A step after the snapshot leaves no trace in the frames after going back to it. -/
theorem restored_replays_nops :
    let m := powerOn.acted (.load nops)
    let n := [Act.step, .raiseNmi].foldl acted m
    Reachable m ∧ m.program.isSome ∧ m.nmiRequested = false ∧ n.clock = m.clock ∧
      ∃ s r, m.snapshot = .ok s ∧ (restore s).run n = (.ok (), r) ∧
        watch [.runFrame, .step] r = watch [.runFrame, .step] m := by
  intro m n
  have hm : Reachable m := ⟨[.load nops], rfl⟩
  have hp : m.program.isSome := rfl
  have hclock : n.clock = m.clock := by decide +kernel
  obtain ⟨s, hs, hreplays⟩ := restored_replays hm hp
  obtain ⟨r, hr, hwatch⟩ := hreplays [.step, .raiseNmi] (by decide)
  obtain ⟨-, hsame⟩ := hwatch [.runFrame, .step] fun _ => hclock
  exact ⟨hm, hp, rfl, hclock, s, r, hs, hr, hsame rfl⟩

/-- An interrupt is requested. -/
def interrupted : Console := (powerOn.acted (.load nops)).acted .raiseNmi

/-- Frames last a single cycle, so that every instruction overruns them. -/
def hurried : Console :=
  let settings := { Settings.standard with
    cyclesPerFrame := 1
    sequencerStepsPerFrame := 1
    scanlinesPerFrame := 1
    visibleScanlines := 0 }
  (powerOn.acted (.applySettings settings)).acted (.load nops)

/-- An interrupt requested before the snapshot is not taken after going back to it, and a frame that
has been overrun since shortens the next one. -/
theorem restored_forgets :
    (Reachable interrupted ∧ interrupted.program.isSome ∧
      ∃ s r, interrupted.snapshot = .ok s ∧ (restore s).run interrupted = (.ok (), r) ∧
        watch [.step] r ≠ watch [.step] interrupted) ∧
    (Reachable hurried ∧ hurried.program.isSome ∧ hurried.nmiRequested = false ∧
      ∃ s r, hurried.snapshot = .ok s ∧
        (restore s).run ([Act.runFrame].foldl acted hurried) = (.ok (), r) ∧
        watch [.runFrame] r ≠ watch [.runFrame] hurried) := by
  constructor
  · have hm : Reachable interrupted := ⟨[.load nops, .raiseNmi], rfl⟩
    have hp : interrupted.program.isSome := rfl
    obtain ⟨s, hs, hrestored⟩ := alike_restored (Sound.of_reachable hm) hp
    obtain ⟨r, hr, halike⟩ := hrestored [] (by decide)
    have hwatch := (halike Eq interrupted.clock rfl).watch_eq [.step] fun _ => rfl
    refine ⟨hm, hp, s, r, hs, hr, fun heq => ?_⟩
    -- the step takes two cycles, and seven more with the interrupt
    have hresults := congrArg (List.map Sight.result) (hwatch.symm.trans heq)
    have hcycles : [(.ok (some 2) : Except Error (Option Nat))] = [.ok (some 9)] := hresults
    simp at hcycles
  · have hm : Reachable hurried := ⟨[.applySettings _, .load nops], rfl⟩
    have hp : hurried.program.isSome := rfl
    obtain ⟨s, hs, hrestored⟩ := alike_restored (Sound.of_reachable hm) hp
    obtain ⟨r, hr, halike⟩ := hrestored [.runFrame] (by decide)
    have hwatch := (halike Eq _ rfl).watch_eq [.runFrame] fun _ => rfl
    refine ⟨hm, hp, rfl, s, r, hs, hr, fun heq => ?_⟩
    -- the overrun covers the whole frame
    have hcycles := congrArg (List.map (·.last.cpu.totalCycles)) (hwatch.symm.trans heq)
    have hnone : [(0 : UInt64)] = [2] := hcycles
    exact absurd hnone (by decide)

end Console

end Famicom
