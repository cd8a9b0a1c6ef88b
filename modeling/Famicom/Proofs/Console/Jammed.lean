import Famicom.Proofs.Console.FrameEvents
import Famicom.Proofs.Console.HostLoops
import Famicom.Proofs.Console.Interrupts

/-!
# A jammed console

A jammed processor executes nothing and takes no interrupt until it is reset, and the console tells
everyone who wants to step it.  But not everyone asks before they act.  A frame whose cycles have
all been overrun by the frame before ends without a step, and a call puts its return address on the
stack before the first step of the routine.  Those are the only traces that a jammed console shows,
however often it is driven on.

* `step_refused`, `runFrame_jammed`, `advanceTrack_jammed` — what comes of driving a jammed console.
* `calling_eq` — what a call leaves behind.
* `jammed_acted` — which acts a jam outlasts.
* `jammed_inert` — all that can become of a jammed console.
-/

namespace Famicom.Console

/-! ## Calls -/

/-- RAM with the way back of a call on the stack. -/
def returnOnStack (ram : Vector UInt8 2048) (sp : UInt8) : Vector UInt8 2048 :=
  (ram.set (Bus.stackCell sp) 0x40).set (Bus.stackCell (sp - 1)) 0xFF

/-- Nothing but the stack's page has changed. -/
theorem returnOnStack_outside (ram : Vector UInt8 2048) (sp : UInt8) {i : Fin 2048}
    (hi : i.val < 0x100 ∨ 0x200 ≤ i.val) : (returnOnStack ram sp)[i] = ram[i] := by
  have hcell (sp : UInt8) : (Bus.stackCell sp).val ≠ i.val := by
    have hsp := sp.toNat_lt
    change 0x100 + sp.toNat ≠ i.val
    omega
  change ((ram.set (Bus.stackCell sp) 0x40).set (Bus.stackCell (sp - 1)) 0xFF)[i.val] = ram[i.val]
  rw [Vector.getElem_set_ne _ _ (hcell _), Vector.getElem_set_ne _ _ (hcell _)]

/-- A call puts the return address on the stack and goes to the routine. -/
theorem calling_eq (c : Console) (addr : UInt16) :
    ∃ counters, c.calling addr =
      { c with
        cpu := { c.cpu with sp := c.cpu.sp - 2, pc := addr }
        bus := { c.bus with ram := returnOnStack c.bus.ram c.cpu.sp, counters }
        totals := { c.totals with routineCalls := c.totals.routineCalls + 1 } } := by
  have htwo : c.cpu.sp - 1 - 1 = c.cpu.sp - 2 := by grind
  obtain ⟨k, hhigh⟩ := Exec.push_bus (highByte (returnMark - 1)) c.cpu c.bus
  obtain ⟨counters, hlow⟩ := Exec.push_bus (lowByte (returnMark - 1))
    { c.cpu with sp := c.cpu.sp - 1 }
    { c.bus with
      ram := c.bus.ram.set (Bus.stackCell c.cpu.sp) (highByte (returnMark - 1))
      counters := k }
  have hcall : Exec.call addr returnMark (c.cpu, c.bus) =
      Exec.jump addr (Exec.push (lowByte (returnMark - 1))
        (Exec.push (highByte (returnMark - 1)) (c.cpu, c.bus)).2).2 := rfl
  dsimp only at hlow
  rw [htwo] at hlow
  refine ⟨counters, ?_⟩
  rw [calling, execOn, hcall, hhigh, hlow]
  rfl

/-- Taking the sequencer steps of a frame concerns the audio unit alone. -/
theorem endTrackFrame_eq (c : Console) :
    ∃ apu totals, c.endTrackFrame = { c with bus := { c.bus with apu }, totals } := by
  have hsteps (n : Nat) : ∃ apu totals,
      Nat.repeat stepSequencer n c = { c with bus := { c.bus with apu }, totals } := by
    induction n with
    | zero => exact ⟨_, _, rfl⟩
    | succ n ih =>
      obtain ⟨apu, totals, hn⟩ := ih
      refine ⟨apu.stepSequencer,
        { totals with sequencerSteps := totals.sequencerSteps + 1 }, ?_⟩
      rw [Nat.repeat, hn]
      rfl
  obtain ⟨apu, totals, hstepped⟩ := hsteps c.settings.sequencerStepsPerFrame.toNat
  refine ⟨apu, { totals with frames := totals.frames + 1 }, ?_⟩
  rw [endTrackFrame, hstepped]

/-! ## Driving a jammed console -/

/-- Why a jammed console refuses a step. -/
def refusal (c : Console) (halt : Halt) : Error :=
  if c.hasProgram then .halted halt else .noProgram

section

variable {c : Console} {halt : Halt} (hhalt : c.cpu.halt = some halt)

include hhalt

/-- A step of a jammed console changes nothing and names the jam. -/
theorem step_refused : step.run c = (.error (c.refusal halt), c) := by
  unfold refusal
  cases hpresent : c.hasProgram with
  | false => exact step_absent hpresent
  | true => exact step_jammed hpresent hhalt

/-- A frame is refused unless it has nothing left to run. -/
theorem runFrame_jammed :
    runFrame.run c =
      if c.hasProgram ∧ c.settings.cyclesPerFrame.toNat ≤ c.clock.position then
        (.ok (), c.endFrame)
      else (.error (c.refusal halt), c) := by
  by_cases hpresent : c.hasProgram
  · by_cases hcovered : c.settings.cyclesPerFrame.toNat ≤ c.clock.position
    · rw [if_pos ⟨hpresent, hcovered⟩, runFrame_covered hpresent hcovered]
    · have hlt : c.clock.position < c.settings.cyclesPerFrame.toNat := Nat.lt_of_not_le hcovered
      obtain ⟨fuel, hfuel⟩ := Nat.exists_eq_add_of_lt hlt
      rw [if_neg fun h => hcovered h.2, runFrame_run, if_pos hpresent, hfuel,
        fuelled_runCycles.round _ c (decide_eq_true hlt), step_refused hhalt]
      rfl
  · rw [if_neg fun h => hpresent h.1, runFrame_run, if_neg hpresent, refusal, if_neg hpresent]

/-- A call is noticed at the first step of the routine, if it has one. -/
theorem callAt_jammed (addr : UInt16) :
    (callAt addr).run c =
      if addr = returnMark then (.ok (), c.calling addr)
      else (.error (.routineStopped addr (c.refusal halt)), c.calling addr) := by
  obtain ⟨counters, hcalling⟩ := c.calling_eq addr
  have hloop := fuelled_runRoutine addr c.settings.routineCycleBudget
    (c.calling addr).cpu.totalCycles
  have hpc : (c.calling addr).cpu.pc = addr := by rw [hcalling]
  -- the program counter is looked at before the jam, so a routine at the mark has ended already
  rw [callAt_run]
  by_cases haddr : addr = returnMark
  · rw [if_pos haddr, hloop.ended _ _ (decide_eq_false fun h => h (hpc.trans haddr))]
  · have hhalt' : (c.calling addr).cpu.halt = some halt := by
      rw [hcalling]
      exact hhalt
    have hrefusal : (c.calling addr).refusal halt = c.refusal halt := by
      rw [hcalling]
      rfl
    rw [if_neg haddr, hloop.round _ _ (decide_eq_true fun h => haddr (hpc.symm.trans h)),
      step_refused hhalt', hrefusal]
    rfl

/-- A frame of a track calls the play routine all the same; only an address that is the mark ends
the frame well. -/
theorem advanceTrack_jammed :
    advanceTrack.run c =
      match c.program.bind (·.sound) with
      | none => (.error .notSound, c)
      | some sound =>
        if sound.play = returnMark then (.ok (), (c.calling sound.play).endTrackFrame)
        else
          (.error (.routineStopped sound.play (c.refusal halt)), c.calling sound.play) := by
  rw [advanceTrack_run]
  cases c.program.bind (·.sound) with
  | none => rfl
  | some sound =>
    dsimp only
    rw [callAt_jammed hhalt]
    split
    · rfl
    · rfl

end

/-! ## How long a jam lasts -/

/-- Acts that put another state in the place of the processor's. -/
def Act.wakes : Act → Bool
  | .load _ | .reset | .startTrack _ | .restore _ => true
  | _ => false

/-- The processor is jammed. -/
def Jammed (halt : Halt) (c : Console) : Prop := c.cpu.halt = some halt

/-- A jam is a matter of the processor alone. -/
theorem jammed_aloof (halt : Halt) : Aloof (Jammed halt) := ⟨fun _ _ h => h, fun _ _ _ h => h⟩

/-- A jam outlasts every act that does not replace the processor's state. -/
theorem jammed_acted {c : Console} {halt : Halt} (hhalt : Jammed halt c) {a : Act}
    (ha : a.wakes = false) : Jammed halt (c.acted a) := by
  -- acts that run the processor are refused; the others never write to it
  cases a with
  | load | reset | startTrack | restore => cases ha
  | applySettings s =>
    change Jammed halt ((applySettings s).run c).2
    unfold applySettings
    split
    · exact hhalt
    · exact hhalt
  | step =>
    change Jammed halt (step.run c).2
    rw [step_refused hhalt]
    exact hhalt
  | runFrame =>
    change Jammed halt (runFrame.run c).2
    rw [runFrame_jammed hhalt]
    split
    · exact hhalt
    · exact hhalt
  | advanceTrack =>
    change Jammed halt (advanceTrack.run c).2
    rw [advanceTrack_jammed hhalt]
    split
    · exact hhalt
    next sound _ =>
    obtain ⟨counters, hcalling⟩ := c.calling_eq sound.play
    obtain ⟨apu, totals, hend⟩ := (c.calling sound.play).endTrackFrame_eq
    rw [hend, hcalling]
    split
    · exact hhalt
    · exact hhalt
  | addPatch text => exact ((jammed_aloof halt).addPatch text).keeps hhalt
  | removePatch id => exact ((jammed_aloof halt).removePatch id).keeps hhalt
  | removePatches => exact (jammed_aloof halt).removePatches.keeps hhalt
  | putBatteryRam data => exact ((jammed_aloof halt).putBatteryRam data).keeps hhalt
  | _ => exact hhalt

/-! ## What is left alone -/

/-- Acts that drive a console on. -/
def Act.drives : Act → Bool
  | .step | .runFrame | .advanceTrack => true
  | _ => false

/-- What drives a console on does not wake its processor. -/
theorem Act.wakes_of_drives {a : Act} (h : a.drives) : a.wakes = false := by
  cases a with
  | step | runFrame | advanceTrack => rfl
  | _ => cases h

/-- Between `c` and `d` nothing has run: the registers are the same but for stack pointer and
program counter, and so are RAM outside the stack's page and the cartridge, and the audio unit
unless the play routine is no routine at all. -/
structure Inert (c d : Console) : Prop where
  cpu : ∃ sp pc, d.cpu = { c.cpu with sp, pc }
  ram : ∀ i : Fin 2048, i.val < 0x100 ∨ 0x200 ≤ i.val → d.bus.ram[i] = c.bus.ram[i]
  cartridge : d.bus.cartridge = c.bus.cartridge
  apu : (∀ sound, c.program.bind (·.sound) = some sound → sound.play ≠ returnMark) →
    d.bus.apu = c.bus.apu
  program : d.program = c.program

/-- Between `c` and `d` not even the stack has been touched. -/
structure Untouched (c d : Console) : Prop where
  cpu : d.cpu = c.cpu
  bus : d.bus = c.bus
  program : d.program = c.program

/-- Nothing is run where nothing is touched. -/
theorem Untouched.inert {c d : Console} (h : Untouched c d) : Inert c d where
  cpu := ⟨c.cpu.sp, c.cpu.pc, h.cpu⟩
  ram _ _ := by rw [h.bus]
  cartridge := by rw [h.bus]
  apu _ := by rw [h.bus]
  program := h.program

theorem Untouched.trans {c d e : Console} (h : Untouched c d) (k : Untouched d e) :
    Untouched c e := ⟨k.cpu.trans h.cpu, k.bus.trans h.bus, k.program.trans h.program⟩

theorem Inert.trans {c d e : Console} (h : Inert c d) (k : Inert d e) : Inert c e where
  cpu := by
    obtain ⟨sp, pc, hd⟩ := h.cpu
    obtain ⟨sp', pc', he⟩ := k.cpu
    refine ⟨sp', pc', ?_⟩
    rw [he, hd]
  ram i hi := (k.ram i hi).trans (h.ram i hi)
  cartridge := k.cartridge.trans h.cartridge
  apu hplay := (k.apu (h.program ▸ hplay)).trans (h.apu hplay)
  program := k.program.trans h.program

/-- A call reaches the stack's page of RAM and nothing else. -/
theorem inert_calling (c : Console) (addr : UInt16) : Inert c (c.calling addr) := by
  obtain ⟨counters, hcalling⟩ := c.calling_eq addr
  rw [hcalling]
  exact ⟨⟨_, _, rfl⟩, fun i => returnOnStack_outside _ _, rfl, fun _ => rfl, rfl⟩

section

variable {c : Console} {halt : Halt} (hhalt : c.cpu.halt = some halt)

include hhalt

/-- Driving a jammed console on without calling a routine touches nothing. -/
theorem untouched_acted {a : Act} (ha : a.drives)
    (hcalls : c.program.bind (·.sound) = none ∨ a ≠ .advanceTrack) : Untouched c (c.acted a) := by
  have hsame : Untouched c c := ⟨rfl, rfl, rfl⟩
  cases a with
  | step =>
    change Untouched c (step.run c).2
    rw [step_refused hhalt]
    exact hsame
  | runFrame =>
    change Untouched c (runFrame.run c).2
    rw [runFrame_jammed hhalt]
    split
    · exact ⟨rfl, rfl, rfl⟩
    · exact hsame
  | advanceTrack =>
    change Untouched c (advanceTrack.run c).2
    rw [advanceTrack_jammed hhalt, hcalls.resolve_right fun h => h rfl]
    exact hsame
  | _ => cases ha

/-- Driving a jammed console on runs nothing. -/
theorem inert_acted {a : Act} (ha : a.drives) : Inert c (c.acted a) := by
  -- only the play routine of a track touches the stack
  by_cases hother : a ≠ .advanceTrack
  · exact (untouched_acted hhalt ha (.inr hother)).inert
  obtain rfl : a = .advanceTrack := Classical.not_not.mp hother
  cases hsound : c.program.bind (·.sound) with
  | none => exact (untouched_acted hhalt ha (.inl hsound)).inert
  | some sound =>
    have hcalling := c.inert_calling sound.play
    obtain ⟨apu, totals, hend⟩ := (c.calling sound.play).endTrackFrame_eq
    change Inert c (advanceTrack.run c).2
    rw [advanceTrack_jammed hhalt, hsound]
    dsimp only
    split
    · next hmark =>
      rw [hend]
      exact ⟨hcalling.cpu, hcalling.ram, hcalling.cartridge,
        fun hplay => absurd hmark (hplay sound hsound), hcalling.program⟩
    · exact hcalling

/-- Driving a jammed console on any number of times runs nothing. -/
theorem inert_of_acts {acts : List Act} (hacts : ∀ a ∈ acts, a.drives) :
    Inert c (acts.foldl acted c) := by
  induction acts generalizing c with
  | nil => exact Untouched.inert ⟨rfl, rfl, rfl⟩
  | cons a rest ih =>
    obtain ⟨ha, hrest⟩ := List.forall_mem_cons.mp hacts
    exact (inert_acted hhalt ha).trans (ih (jammed_acted hhalt (Act.wakes_of_drives ha)) hrest)

/-- Any number of acts that drive on, by induction over them. -/
theorem untouched_of_acts {acts : List Act} (hacts : ∀ a ∈ acts, a.drives)
    (hcalls : c.program.bind (·.sound) = none ∨ .advanceTrack ∉ acts) :
    Untouched c (acts.foldl acted c) := by
  induction acts generalizing c with
  | nil => exact ⟨rfl, rfl, rfl⟩
  | cons a rest ih =>
    obtain ⟨ha, hrest⟩ := List.forall_mem_cons.mp hacts
    rw [List.mem_cons, not_or] at hcalls
    have hfirst := untouched_acted hhalt ha (hcalls.imp_right fun h => Ne.symm h.1)
    refine hfirst.trans (ih (jammed_acted hhalt (Act.wakes_of_drives ha)) hrest ?_)
    rw [hfirst.program]
    exact hcalls.imp_right And.right

/-- A jam lasts for any number of acts that do not wake the processor. -/
theorem jammed_of_acts {acts : List Act} (hacts : ∀ a ∈ acts, a.wakes = false) :
    Jammed halt (acts.foldl acted c) := by
  induction acts generalizing c with
  | nil => exact hhalt
  | cons a rest ih =>
    obtain ⟨ha, hrest⟩ := List.forall_mem_cons.mp hacts
    exact ih (jammed_acted hhalt ha) hrest

end

/-! ## The jammed console -/

/-- What comes of driving a jammed console on. -/
structure Refuses (halt : Halt) (c : Console) : Prop where
  halted : c.cpu.halt = some halt
  step : Console.step.run c = (.error (c.refusal halt), c)
  runFrame : Console.runFrame.run c =
    if c.hasProgram ∧ c.settings.cyclesPerFrame.toNat ≤ c.clock.position then
      (.ok (), c.endFrame)
    else (.error (c.refusal halt), c)
  advanceTrack : Console.advanceTrack.run c =
    match c.program.bind (·.sound) with
    | none => (.error .notSound, c)
    | some sound =>
      if sound.play = returnMark then (.ok (), (c.calling sound.play).endTrackFrame)
      else (.error (.routineStopped sound.play (c.refusal halt)), c.calling sound.play)

theorem refuses_of_halt {c : Console} {halt : Halt} (hhalt : c.cpu.halt = some halt) :
    Refuses halt c :=
  ⟨hhalt, step_refused hhalt, runFrame_jammed hhalt, advanceTrack_jammed hhalt⟩

/-- **All that can become of a jammed console.**  Until the processor's state is replaced, whatever
else is done with the console, the jam is there and has not changed.  A step is refused and changes
nothing.  A frame is refused and changes nothing, unless no cycle of it is left to run, and then it
just ends.  A frame of a track is refused once the routine has been called, unless the routine is no
routine at all.  However often the console is driven on, it is inert, and if no routine has been
called not even the stack is touched. -/
theorem jammed_inert {c : Console} {halt : Halt} (hhalt : c.cpu.halt = some halt) {acts : List Act}
    (hacts : ∀ a ∈ acts, a.wakes = false) :
    let d := acts.foldl acted c
    Refuses halt d ∧
      ((∀ a ∈ acts, a.drives) → Inert c d ∧
        (c.program.bind (·.sound) = none ∨ .advanceTrack ∉ acts → Untouched c d)) :=
  ⟨refuses_of_halt (jammed_of_acts hhalt hacts), fun hdrives =>
    ⟨inert_of_acts hhalt hdrives, untouched_of_acts hhalt hdrives⟩⟩

/-- Initialization returns at once, and playing jams the processor. -/
def jamsWhenPlayed : Array UInt8 := #[0x60, 0x02]

/-- A track whose play routine jams the processor is played on, stepped and run for a frame. -/
theorem jammed_inert_playing :
    ∃ i, Image.soundProgram jamsWhenPlayed 0x8000 ⟨0x8000, 0x8001, 1⟩ = .ok i ∧
      let c := [.load i, .startTrack 0, .advanceTrack].foldl acted powerOn
      let acts := [.advanceTrack, .step, .runFrame]
      let d := acts.foldl acted c
      c.cpu.halt = some ⟨0x02, 0x8001⟩ ∧ (∀ a ∈ acts, a.wakes = false ∧ a.drives) ∧
        c.cpu.sp = 0xFB ∧ d.cpu.sp = 0xF9 ∧ Refuses ⟨0x02, 0x8001⟩ d ∧ Inert c d := by
  have himage : Image.soundProgram jamsWhenPlayed 0x8000 ⟨0x8000, 0x8001, 1⟩ = .ok _ := rfl
  refine ⟨_, himage, ?_⟩
  intro c acts d
  have hhalt : c.cpu.halt = some ⟨0x02, 0x8001⟩ := by decide +kernel
  have hacts : ∀ a ∈ acts, a.wakes = false ∧ a.drives := by
    simp only [acts, List.forall_mem_cons, Act.wakes, Act.drives, and_self, true_and]
    exact fun a ha => nomatch ha
  have hbefore : c.cpu.sp = 0xFB := by decide +kernel
  have hafter : d.cpu.sp = 0xF9 := by decide +kernel
  obtain ⟨hrefuses, hinert⟩ := jammed_inert hhalt fun a ha => (hacts a ha).1
  exact ⟨hhalt, hacts, hbefore, hafter, hrefuses, (hinert fun a ha => (hacts a ha).2).1⟩

/-- Jump to an instruction that jams the processor. -/
def jumpToJam : Image :=
  { nops with
    prg := #[0x4C, 0x03, 0x80, 0x02, 0x00, 0x80, 0x00, 0x00]
    loadAddress := Image.romStart
    sound := none }

/-- A jam can be noticed too late.  A jammed console that is to play a frame of a track puts a
return address on the stack.  With frames of one cycle, after a jump that has overrun the next frame
and a step that has jammed the processor, that frame ends well. -/
theorem jam_noticed_late :
    (∃ i, Image.soundProgram jamsWhenPlayed 0x8000 ⟨0x8000, 0x8001, 1⟩ = .ok i ∧
      let c := [.load i, .startTrack 0, .advanceTrack].foldl acted powerOn
      Reachable c ∧ c.cpu.halt = some ⟨0x02, 0x8001⟩ ∧
        (c.acted .advanceTrack).cpu ≠ c.cpu ∧ (c.acted .advanceTrack).bus.ram ≠ c.bus.ram) ∧
    let acts := [.applySettings (brief 1).settings, .load jumpToJam, .runFrame, .step]
    let c := acts.foldl acted powerOn
    Reachable c ∧ c.settings.Valid ∧ c.cpu.halt = some ⟨0x02, 0x8003⟩ ∧
      runFrame.run c = (.ok (), c.endFrame) := by
  have himage : Image.soundProgram jamsWhenPlayed 0x8000 ⟨0x8000, 0x8001, 1⟩ = .ok _ := rfl
  refine ⟨⟨_, himage, ?_⟩, ?_⟩
  · intro c
    -- one cell of the stack tells the two memories apart
    have hcell : (c.acted .advanceTrack).bus.ram[(0x1FB : Nat)] ≠ c.bus.ram[(0x1FB : Nat)] := by
      decide +kernel
    exact ⟨⟨_, rfl⟩, by decide +kernel, by decide +kernel,
      fun h => hcell (congrArg (fun ram => ram[(0x1FB : Nat)]) h)⟩
  · intro acts c
    have hpresent : c.hasProgram := by decide +kernel
    have hcovered : c.settings.cyclesPerFrame.toNat ≤ c.clock.position := by decide +kernel
    exact ⟨⟨_, rfl⟩, by decide +kernel, by decide +kernel, runFrame_covered hpresent hcovered⟩

end Famicom.Console
