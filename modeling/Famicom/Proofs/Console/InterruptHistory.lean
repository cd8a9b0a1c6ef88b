import Famicom.Proofs.Console.Boundaries
import Famicom.Proofs.Console.Interrupts
import Famicom.Proofs.Console.Replay

/-!
# The interrupts of a run

`notes` reads along with a run: it lists the requests of the host, the interrupts that are taken by
every instruction of every frame and routine, and the points at which requests are forgotten.  An
interrupt is noted when a step counts it in the totals.  `Interrupts.enter` is a monitor: it says
when a note may come and what it makes of the state of interrupts.  It accepts every run, and ends
with the state that the console is in.

* `takes_step`, `takes_runCycles`, `takes_runRoutine` — the interrupts of a step, of a frame and of
  a routine, one after the other.
* `follows_acted`, `follows_run` — the notes of an act and of a run.
* `interrupts_served` — what a step does about interrupts, and what a run does.
-/

namespace Famicom

/-! ## Interrupts one after the other -/

/-- An interrupt that is taken. -/
inductive Interrupt
  | nmi
  /-- A maskable interrupt, in the presence of a status. -/
  | irq (p : Status)

namespace Interrupts

/-- Take an interrupt.  A non-maskable one is taken on request only, and uses the request up; a
maskable one gives way to a request and has to be let through. -/
def take (i : Interrupts) : Interrupt → Option Interrupts
  | .nmi => if i.requested then some { i with requested := false, nmis := i.nmis + 1 } else none
  | .irq p =>
    if i.requested || p.test .interruptDisable then none else some { i with irqs := i.irqs + 1 }

/-- The interrupts that were taken to get from `i` to `j`, in the presence of status `p`. -/
def between (i j : Interrupts) (p : Status) : List Interrupt :=
  (if j.nmis = i.nmis then [] else [.nmi]) ++ if j.irqs = i.irqs then [] else [.irq p]

theorem between_self (i : Interrupts) (p : Status) : between i i p = [] := by
  simp only [between, if_true, List.append_nil]

/-- One more non-maskable interrupt has been counted, and no other. -/
theorem between_nmi (before after : Bool) (nmis irqs : UInt64) (p : Status) :
    between ⟨before, nmis, irqs⟩ ⟨after, nmis + 1, irqs⟩ p = [.nmi] := by
  have hsucc : nmis + 1 ≠ nmis := by grind
  simp only [between, if_neg hsucc, if_true, List.append_nil]

/-- One more interrupt from the line has been counted. -/
theorem between_irq (before after : Bool) (nmis irqs : UInt64) (p : Status) :
    between ⟨before, nmis, irqs⟩ ⟨after, nmis, irqs + 1⟩ p = [.irq p] := by
  have hsucc : irqs + 1 ≠ irqs := by grind
  simp only [between, if_neg hsucc, if_true, List.nil_append]

/-- A request is still there, or it has been answered once. -/
def Answered (i j : Interrupts) : Prop :=
  j.requested = i.requested ∧ j.nmis = i.nmis ∨
    i.requested = true ∧ j.requested = false ∧ j.nmis = i.nmis + 1

theorem take_nmi_iff {i j : Interrupts} : i.take .nmi = some j ↔
    i.requested = true ∧ { i with requested := false, nmis := i.nmis + 1 } = j := by
  simp [take]

theorem take_irq_iff {i j : Interrupts} {p : Status} : i.take (.irq p) = some j ↔
    (i.requested = false ∧ p.test .interruptDisable = false) ∧
      { i with irqs := i.irqs + 1 } = j := by
  simp [take]

/-- **One interrupt** answers the request that it finds, or finds none. -/
theorem answered_take {i j : Interrupts} {t : Interrupt} (h : i.take t = some j) :
    i.Answered j := by
  cases t with
  | nmi =>
    obtain ⟨hrequested, rfl⟩ := take_nmi_iff.mp h
    exact .inr ⟨hrequested, rfl, rfl⟩
  | irq p =>
    obtain ⟨-, rfl⟩ := take_irq_iff.mp h
    exact .inl ⟨rfl, rfl⟩

/-- What is answered cannot be answered again. -/
theorem Answered.trans {i j k : Interrupts} (h : i.Answered j) (l : j.Answered k) :
    i.Answered k := by
  rcases h with ⟨hsame, hnmis⟩ | ⟨hrequested, hanswered, hnmis⟩
  · rcases l with ⟨lsame, lnmis⟩ | ⟨lrequested, lanswered, lnmis⟩
    · exact .inl ⟨lsame.trans hsame, lnmis.trans hnmis⟩
    · exact .inr ⟨hsame.symm.trans lrequested, lanswered, hnmis ▸ lnmis⟩
  · rcases l with ⟨lsame, lnmis⟩ | ⟨lrequested, -, -⟩
    · exact .inr ⟨hrequested, lsame.trans hanswered, lnmis.trans hnmis⟩
    · exact absurd (hanswered.symm.trans lrequested) Bool.false_ne_true

/-- Any number of interrupts, by induction over them. -/
theorem answered_foldlM {ts : List Interrupt} {i j : Interrupts}
    (h : ts.foldlM take i = some j) : i.Answered j := by
  induction ts generalizing i with
  | nil =>
    cases h
    exact .inl ⟨rfl, rfl⟩
  | cons t rest ih =>
    obtain ⟨k, htake, hrest⟩ := Option.bind_eq_some_iff.mp h
    exact (answered_take htake).trans (ih hrest)

/-- Something that happens to the interrupts of a console. -/
inductive Note
  /-- A non-maskable interrupt is requested. -/
  | requested
  | took (t : Interrupt)
  /-- A request is forgotten, if there is one. -/
  | dropped
  /-- So is the number of interrupts that were taken. -/
  | restarted

/-- The state of interrupts after a note, unless it cannot come. -/
def enter (i : Interrupts) : Note → Option Interrupts
  | .requested => some { i with requested := true }
  | .took t => i.take t
  | .dropped => some { i with requested := false }
  | .restarted => some ⟨false, 0, 0⟩

/-- A maskable interrupt that is taken is let through. -/
theorem open_of_foldlM {notes : List Note} {i j : Interrupts}
    (h : notes.foldlM enter i = some j) {p : Status} (hp : .took (.irq p) ∈ notes) :
    p.test .interruptDisable = false := by
  induction notes generalizing i with
  | nil => cases hp
  | cons note rest ih =>
    obtain ⟨k, henter, hrest⟩ := Option.bind_eq_some_iff.mp h
    rcases List.mem_cons.mp hp with rfl | hlater
    · exact (take_irq_iff.mp henter).1.2
    · exact ih hrest hlater

end Interrupts

open Interrupts

namespace Console

/-- Taking the interrupts one after the other leads from the interrupts of `c` to those of `d`. -/
def Takes (ts : List Interrupt) (c d : Console) : Prop :=
  ts.foldlM take c.interrupts = some d.interrupts

namespace Takes

variable {c d e : Console} {ts us : List Interrupt}

theorem none (h : d.interrupts = c.interrupts) : Takes [] c d := congrArg some h.symm

/-- What is taken in two parts is taken in all. -/
theorem append (h : Takes ts c d) (k : Takes us d e) : Takes (ts ++ us) c e := by
  unfold Takes
  rw [List.foldlM_append, h]
  exact k

/-- What leaves the interrupts alone can come before anything. -/
theorem early (h : d.interrupts = c.interrupts) (k : Takes ts d e) : Takes ts c e :=
  (congrArg (ts.foldlM take) h.symm).trans k

/-- It can come after anything, too, unless that has failed. -/
theorem late {α β : Type} {x : Run α} {f : α → Run β} (h : Takes ts c (x.run c).2)
    (hf : ∀ a d, ((f a).run d).2.interrupts = d.interrupts) :
    Takes ts c ((x >>= f).run c).2 := by
  rw [Run.bind_run]
  rcases hrun : x.run c with ⟨e | a, d⟩ <;> rw [hrun] at h
  · exact h
  · exact h.trans (congrArg some (hf a d).symm)

end Takes

/-! ## Steps -/

/-- The interrupts of a step, read off the totals. -/
def stepTaken (c : Console) : List Interrupt :=
  between c.interrupts (step.run c).2.interrupts c.afterInstruction.cpu.p

/-- **One step** takes at most one interrupt, and a jam none. -/
theorem takes_step (c : Console) : Takes c.stepTaken c (step.run c).2 := by
  have hquiet {d : Console} (h : d.interrupts = c.interrupts) :
      Takes (between c.interrupts d.interrupts c.afterInstruction.cpu.p) c d := by
    rw [h, between_self]
    exact .none h
  have houtcome := step_outcome c
  unfold stepTaken
  generalize step.run c = outcome at houtcome
  -- only two of the outcomes count an interrupt, and each counts one
  cases houtcome with
  | absent => exact hquiet rfl
  | jammed => exact hquiet rfl
  | jams _ hpassed => exact hquiet hpassed.interrupts
  | none _ _ hpassed => exact hquiet hpassed.interrupts
  | nmi hrequested _ hinterrupts =>
    rw [hinterrupts, Takes, hinterrupts]
    simp only [interrupts, between_nmi, List.foldlM_cons, List.foldlM_nil, take, hrequested]
    rfl
  | irq hrequested _ hopen _ hinterrupts =>
    rw [hinterrupts, Takes, hinterrupts]
    simp only [interrupts, between_irq, List.foldlM_cons, List.foldlM_nil, take, hrequested, hopen]
    rfl

/-! ## Frames -/

theorem fireFrameEvents_interrupts (c : Console) : c.fireFrameEvents.interrupts = c.interrupts := by
  rw [fireFrameEvents_eq]
  rfl

/-- The interrupts of the instructions of a frame. -/
def runCyclesTaken : (fuel : Nat) → Console → List Interrupt
  | 0, _ => []
  | fuel + 1, c =>
    if c.clock.position < c.settings.cyclesPerFrame.toNat then
      c.stepTaken ++
        match step.run c with
        | (.ok cycles, d) => runCyclesTaken fuel (d.advanceClock cycles).fireFrameEvents
        | (.error _, _) => []
    else []

/-- The loop of a frame, by induction on the fuel. -/
theorem takes_runCycles (fuel : Nat) (c : Console) :
    Takes (runCyclesTaken fuel c) c ((runCycles fuel).run c).2 := by
  -- what fires after an instruction leaves the interrupts alone
  induction fuel generalizing c with
  | zero => exact .none rfl
  | succ fuel ih =>
    unfold runCyclesTaken runCycles
    simp only [Run.bind_run, Run.get_run]
    split
    · refine (takes_step c).append ?_
      simp only [Run.bind_run]
      cases hstep : step.run c with
      | mk result d =>
      cases result with
      | error e => exact .none rfl
      | ok cycles =>
        exact .early (fireFrameEvents_interrupts (d.advanceClock cycles)) (ih _)
    · exact .none rfl

/-- The interrupts of a frame. -/
def runFrameTaken (c : Console) : List Interrupt :=
  if c.hasProgram then runCyclesTaken c.settings.cyclesPerFrame.toNat c else []

/-- What ends a frame takes no interrupt. -/
theorem takes_runFrame (c : Console) : Takes c.runFrameTaken c (runFrame.run c).2 := by
  unfold runFrameTaken runFrame
  simp only [Run.bind_run, Run.get_run]
  cases c.hasProgram with
  | false => exact .none rfl
  | true =>
    have hcycles := takes_runCycles c.settings.cyclesPerFrame.toNat c
    simp only [Bool.not_true, Bool.false_eq_true, if_false, if_true]
    rw [Run.bind_run, Run.get_run]
    exact hcycles.late fun _ _ => rfl

/-! ## Routines -/

/-- The interrupts of the instructions of a routine. -/
def runRoutineTaken (budget start : UInt64) : (fuel : Nat) → Console → List Interrupt
  | 0, _ => []
  | fuel + 1, c =>
    if c.cpu.pc ≠ returnMark then
      c.stepTaken ++
        match step.run c with
        | (.ok _, d) =>
          if budget < d.cpu.totalCycles - start then [] else runRoutineTaken budget start fuel d
        | (.error _, _) => []
    else []

/-- The loop of a routine, by induction on the fuel. -/
theorem takes_runRoutine (addr : UInt16) (budget start : UInt64) (fuel : Nat) (c : Console) :
    Takes (runRoutineTaken budget start fuel c) c
      ((runRoutine addr budget start fuel).run c).2 := by
  induction fuel generalizing c with
  | zero => exact .none rfl
  | succ fuel ih =>
    unfold runRoutineTaken runRoutine stepRoutine
    simp only [Run.bind_run, Run.get_run]
    split
    · refine (takes_step c).append ?_
      simp only [Run.bind_run, Run.tryCatch_run]
      cases hstep : step.run c with
      | mk result d =>
      cases result with
      | error e => exact .none rfl
      | ok cycles =>
        simp only [Run.get_run]
        split
        · exact .none rfl
        · exact ih d
    · exact .none rfl

/-- The console that a routine at `addr` starts on. -/
def called (addr : UInt16) (c : Console) : Console :=
  let d := (execOn (Exec.call addr returnMark) c).2
  { d with totals := { d.totals with routineCalls := d.totals.routineCalls + 1 } }

/-- The interrupts of a call. -/
def callTaken (addr : UInt16) (c : Console) : List Interrupt :=
  let d := c.called addr
  let budget := d.settings.routineCycleBudget
  runRoutineTaken budget d.cpu.totalCycles (budget.toNat / 2 + 2) d

theorem takes_callAt (addr : UInt16) (c : Console) :
    Takes (c.callTaken addr) c ((callAt addr).run c).2 :=
  .early (c := c) (d := c.called addr) rfl (takes_runRoutine addr _ _ _ _)

theorem repeatSequencer_interrupts (n : Nat) (c : Console) :
    (Nat.repeat stepSequencer n c).interrupts = c.interrupts := by
  induction n with
  | zero => rfl
  | succ n ih => exact ih

/-- The interrupts of a frame of a track. -/
def advanceTrackTaken (c : Console) : List Interrupt :=
  match c.program.bind (·.sound) with
  | some sound => c.callTaken sound.play
  | none => []

/-- The sequencer steps of a track frame take none either. -/
theorem takes_advanceTrack (c : Console) :
    Takes c.advanceTrackTaken c (advanceTrack.run c).2 := by
  unfold advanceTrackTaken advanceTrack soundProgram
  rw [Run.bind_run, Run.bind_run, Run.get_run]
  dsimp only
  cases c.program.bind (·.sound) with
  | none => exact .none rfl
  | some sound =>
    refine (takes_callAt sound.play c).late fun _ d => ?_
    exact repeatSequencer_interrupts _ d

/-! ## Acts that take no interrupt -/

section

variable {i : Interrupts}

/-- Settings do not concern interrupts. -/
theorem quiet_applySettings (s : Settings) :
    Respects (Kept fun c : Console => c.interrupts = i) (applySettings s).run := by
  unfold applySettings
  split
  · exact .run_throw _
  · exact .run_bind (.run_lift (.update_kept fun _ h => h)) fun _ =>
      .run_lift (.update_kept fun _ h => h)

theorem quiet_aloof : Aloof fun c : Console => c.interrupts = i :=
  ⟨fun _ _ h => h, fun _ _ _ h => h⟩

end

/-- An act that neither requests an interrupt nor forgets requests. -/
def Act.leavesRequests : Act → Bool
  | .load _ | .reset | .raiseNmi | .startTrack _ | .restore _ => false
  | _ => true

/-- The interrupts of an act that leaves requests alone. -/
def takenBy (c : Console) : Act → List Interrupt
  | .step => c.stepTaken
  | .runFrame => c.runFrameTaken
  | .advanceTrack => c.advanceTrackTaken
  | _ => []

/-- **One act** that leaves requests alone. -/
theorem takes_acted (c : Console) {a : Act} (ha : a.leavesRequests) :
    Takes (c.takenBy a) c (c.acted a) := by
  cases a with
  | load | reset | raiseNmi | startTrack | restore => cases ha
  | step => exact takes_step c
  | runFrame => exact takes_runFrame c
  | advanceTrack => exact takes_advanceTrack c
  | applySettings s => exact .none ((quiet_applySettings s).keeps rfl)
  | addPatch text => exact .none ((quiet_aloof.addPatch text).keeps rfl)
  | removePatch id => exact .none ((quiet_aloof.removePatch id).keeps rfl)
  | removePatches => exact .none (quiet_aloof.removePatches.keeps rfl)
  | putBatteryRam data => exact .none ((quiet_aloof.putBatteryRam data).keeps rfl)
  | takeSamples | busRead | busWrite | chrRead | chrWrite | tick | clearRam | clearCounters
  | attach | operateApu => exact .none rfl

/-! ## Acts that request or forget an interrupt -/

/-- A reset forgets the request and the counts. -/
theorem reset_interrupts {c : Console} (h : c.hasProgram) :
    (reset c).2.interrupts = ⟨false, 0, 0⟩ := by
  change ((if c.hasProgram then _ else _ : StateM Console Unit) c).2.interrupts = _
  rw [if_pos h]
  rfl

/-- The notes lead from the interrupts of `c` to those of `d`. -/
def Follows (notes : List Note) (c d : Console) : Prop :=
  notes.foldlM enter c.interrupts = some d.interrupts

namespace Follows

variable {c d e : Console} {notes more : List Note}

theorem nothing (c : Console) : Follows [] c c := rfl

theorem append (h : Follows notes c d) (k : Follows more d e) : Follows (notes ++ more) c e := by
  unfold Follows
  rw [List.foldlM_append, h]
  exact k

theorem took {ts : List Interrupt} (h : Takes ts c d) : Follows (ts.map .took) c d :=
  List.foldlM_map.trans h

end Follows

/-- What happens to the interrupts in an act.  An act that fails at once does nothing to them. -/
def actNotes (c : Console) : Act → List Note
  | .load i => if ((load i).run c).1.isOk then [.restarted] else []
  | .reset => if c.hasProgram then [.restarted] else []
  | .raiseNmi => [.requested]
  | .startTrack track =>
    match c.program.bind (·.sound) with
    | some sound =>
      if sound.tracks ≤ track then []
      else .dropped :: ((c.cleared track).callTaken sound.init).map .took
    | none => []
  | .restore s => if ((restore s).run c).1.isOk then [.dropped] else []
  | a => (c.takenBy a).map .took

/-- An image that is refused leaves the notes as they are; any other restarts them. -/
theorem follows_load (i : Image) (c : Console) :
    Follows (c.actNotes (.load i)) c ((load i).run c).2 := by
  change Follows (if ((load i).run c).1.isOk then [.restarted] else []) c _
  unfold load
  cases Cartridge.ofImage i with
  | error e => exact .nothing c
  | ok cartridge =>
    let attached : Console := { c with
      bus := (c.bus.attach cartridge).clearRam
      patches := .empty
      program := some (Program.ofImage i) }
    -- what is reported after the restart does not matter to interrupts
    let announce : Run Unit := do
      report (.loaded (Program.ofImage i).title)
      if !Board.isKnown i.mapper then report (.unknownMapper i.mapper)
    have hreset : (reset attached).2.interrupts = ⟨false, 0, 0⟩ := reset_interrupts rfl
    have hannounce (d : Console) : (announce.run d).1.isOk ∧
        (announce.run d).2.interrupts = d.interrupts := by
      change ((if !Board.isKnown i.mapper then _ else _ : Run Unit).run _).1.isOk ∧
        ((if !Board.isKnown i.mapper then _ else _ : Run Unit).run _).2.interrupts = _
      split
      · exact ⟨rfl, rfl⟩
      · exact ⟨rfl, rfl⟩
    change Follows (if (announce.run (reset attached).2).1.isOk then [.restarted] else []) c
      (announce.run (reset attached).2).2
    obtain ⟨hok, hsame⟩ := hannounce (reset attached).2
    rw [if_pos hok]
    exact congrArg some (hsame.trans hreset).symm

theorem follows_reset (c : Console) : Follows (c.actNotes .reset) c (reset c).2 := by
  unfold actNotes
  cases hprogram : c.hasProgram with
  | false =>
    change some _ = some ((if c.hasProgram then _ else _ : StateM Console Unit) c).2.interrupts
    rw [hprogram]
    rfl
  | true => exact congrArg some (reset_interrupts hprogram).symm

/-- A track drops the request, and then its routine takes what comes. -/
theorem follows_startTrack (track : UInt8) (c : Console) :
    Follows (c.actNotes (.startTrack track)) c ((startTrack track).run c).2 := by
  rw [startTrack_run, actNotes]
  cases c.program.bind (·.sound) with
  | none => exact .nothing c
  | some sound =>
    dsimp only
    split
    · exact .nothing c
    · have hdropped : Follows [.dropped] c (c.cleared track) := rfl
      exact hdropped.append (.took ((takes_callAt sound.init _).late fun _ _ => rfl))

/-- A snapshot drops the request and keeps the counts. -/
theorem follows_restore (s : Snapshot) (c : Console) :
    Follows (c.actNotes (.restore s)) c ((restore s).run c).2 := by
  change Follows (if ((restore s).run c).1.isOk then [.dropped] else []) c _
  rcases restore_cases s c with ⟨e, hrun⟩ | ⟨d, hfits, hrun⟩
  · rw [hrun]
    exact .nothing c
  · rw [hrun]
    exact rfl

/-- The notes of an act lead from the interrupts before it to those after it. -/
theorem follows_acted (c : Console) (a : Act) : Follows (c.actNotes a) c (c.acted a) := by
  cases a with
  | load i => exact follows_load i c
  | reset => exact follows_reset c
  | raiseNmi => exact rfl
  | startTrack track => exact follows_startTrack track c
  | restore s => exact follows_restore s c
  | _ => exact .took (takes_acted c rfl)

/-! ## Runs -/

/-- What happens to the interrupts in a run. -/
def notes : List Act → Console → List Note
  | [], _ => []
  | a :: rest, c => c.actNotes a ++ notes rest (c.acted a)

/-- Any run of acts, by induction over it. -/
theorem follows_run (acts : List Act) (c : Console) :
    Follows (notes acts c) c (acts.foldl acted c) := by
  induction acts generalizing c with
  | nil => exact .nothing c
  | cons a rest ih => exact (follows_acted c a).append (ih (c.acted a))

/-- A request is answered at most once before another one, and not lost before it can be
forgotten. -/
theorem answered_run {acts : List Act} (h : ∀ a ∈ acts, a.leavesRequests) (c : Console) :
    c.interrupts.Answered (acts.foldl acted c).interrupts := by
  induction acts generalizing c with
  | nil => exact .inl ⟨rfl, rfl⟩
  | cons a rest ih =>
    have hact := answered_foldlM (takes_acted c (h a List.mem_cons_self))
    exact hact.trans (ih (fun b hb => h b (List.mem_cons_of_mem a hb)) (c.acted a))

/-- **Interrupts.**  A step ends well unless the instruction jams.  Then it takes the non-maskable
interrupt that is requested, else the one on the line if the status lets it through after the
instruction, else none; one that jams takes none and keeps the request.  The notes of a run tell
how its interrupts came about, so that no maskable one was taken while the status blocked it; and
from one request to the next, or to the point where it is forgotten, it is answered once or still
there. -/
theorem interrupts_served (c : Console) (acts : List Act) :
    (∀ n d, step.run c = (.ok n, d) →
      (c.nmiRequested = true →
        n = c.instructionCycles + 7 ∧ Entered nmiVector c.afterInstruction d ∧
          d.interrupts = ⟨false, c.totals.nmis + 1, c.totals.irqs⟩) ∧
      (c.nmiRequested = false → c.afterInstruction.bus.irqLine = true →
        c.afterInstruction.cpu.p.test .interruptDisable = false →
        n = c.instructionCycles + 7 ∧ Entered irqVector c.afterInstruction d ∧
          d.interrupts = ⟨false, c.totals.nmis, c.totals.irqs + 1⟩) ∧
      (c.nmiRequested = false →
        (c.afterInstruction.bus.irqLine = true →
          c.afterInstruction.cpu.p.test .interruptDisable = true) →
        n = c.instructionCycles ∧ Passed c.afterInstruction d)) ∧
    (c.hasProgram → c.cpu.halt = none → c.afterInstruction.cpu.halt = none →
      ∃ n d, step.run c = (.ok n, d)) ∧
    (∀ halt, c.hasProgram → c.cpu.halt = none → c.afterInstruction.cpu.halt = some halt →
      ∃ d, step.run c = (.error (.halted halt), d) ∧ Passed c.afterInstruction d) ∧
    (notes acts c).foldlM enter c.interrupts = some (acts.foldl acted c).interrupts ∧
    (∀ p, .took (.irq p) ∈ notes acts c → p.test .interruptDisable = false) ∧
    ((∀ a ∈ acts, a.leavesRequests) →
      let d := acts.foldl acted c
      d.nmiRequested = c.nmiRequested ∧ d.totals.nmis = c.totals.nmis ∨
        c.nmiRequested = true ∧ d.nmiRequested = false ∧
          d.totals.nmis = c.totals.nmis + 1) := by
  refine ⟨fun n d h => ?_, step_ends, fun halt h k => step_jams h k, follows_run acts c,
    fun p => ?_, ?_⟩
  · exact ⟨step_nmi h, step_irq h, step_passes h⟩
  · exact open_of_foldlM (follows_run acts c)
  · exact fun h => answered_run h c

/-- A console at the start of a program, with the audio unit's interrupt raised. -/
def raised (opcode : UInt8) : Console :=
  [Act.load { nops with prg := nops.prg.set! 0 opcode }, .operateApu .stepSequencer,
    .operateApu .stepSequencer, .operateApu .stepSequencer, .operateApu .stepSequencer].foldl
    acted powerOn

/-- A request is answered after a `NOP`, and once only; the line is answered after the `CLI` that
lets it through, and not after a `NOP`; a jam answers nothing. -/
theorem interrupts_served_raised :
    (∃ d, step.run interrupted = (.ok 9, d) ∧ Entered nmiVector interrupted.afterInstruction d ∧
      d.interrupts = ⟨false, 1, 0⟩) ∧
    ([Act.step, .step].foldl acted interrupted).totals.nmis = 1 ∧
    (∃ d, step.run (raised 0x58) = (.ok 9, d) ∧
      Entered irqVector (raised 0x58).afterInstruction d ∧ d.interrupts = ⟨false, 0, 1⟩) ∧
    (∃ p, notes [.step] (raised 0x58) = [.took (.irq p)] ∧ p.test .interruptDisable = false) ∧
    (∃ d, step.run (raised 0xEA) = (.ok 2, d) ∧ Passed (raised 0xEA).afterInstruction d) ∧
    ∃ d, step.run ((raised 0x02).acted .raiseNmi) = (.error (.halted ⟨0x02, 0xFFF0⟩), d) ∧
      d.nmiRequested = true := by
  refine ⟨?_, ?_, ?_, ?_, ?_, ?_⟩
  · have hok : step.run interrupted = (.ok 9, (step.run interrupted).2) := Prod.ext rfl rfl
    obtain ⟨hstep, -⟩ := interrupts_served interrupted []
    obtain ⟨-, hentered, hinterrupts⟩ := (hstep _ _ hok).1 rfl
    exact ⟨_, hok, hentered, hinterrupts⟩
  · obtain ⟨-, -, -, -, -, hanswered⟩ := interrupts_served interrupted [.step, .step]
    have hgone : ([Act.step, .step].foldl acted interrupted).nmiRequested = false := by
      decide +kernel
    rcases hanswered (by decide) with ⟨hsame, -⟩ | ⟨-, -, hnmis⟩
    · exact absurd (hsame.symm.trans hgone) (by decide +kernel)
    · exact hnmis
  · have hok : step.run (raised 0x58) = (.ok 9, (step.run (raised 0x58)).2) := Prod.ext rfl rfl
    obtain ⟨hstep, -⟩ := interrupts_served (raised 0x58) []
    obtain ⟨-, hentered, hinterrupts⟩ :=
      (hstep _ _ hok).2.1 rfl (by decide +kernel) (by decide +kernel)
    exact ⟨_, hok, hentered, hinterrupts⟩
  · have hnotes : notes [.step] (raised 0x58) =
        [.took (.irq (raised 0x58).afterInstruction.cpu.p)] := rfl
    obtain ⟨-, -, -, -, hopen, -⟩ := interrupts_served (raised 0x58) [.step]
    exact ⟨_, hnotes, hopen _ (hnotes ▸ List.mem_singleton_self _)⟩
  · obtain ⟨hstep, hends, -⟩ := interrupts_served (raised 0xEA) []
    obtain ⟨n, d, hok⟩ := hends rfl rfl (by decide +kernel)
    obtain ⟨rfl, hpassed⟩ := (hstep _ _ hok).2.2 rfl fun _ => by decide +kernel
    have hcycles : (raised 0xEA).instructionCycles = 2 := by decide +kernel
    exact ⟨d, hcycles ▸ hok, hpassed⟩
  · obtain ⟨-, -, hjams, -⟩ := interrupts_served ((raised 0x02).acted .raiseNmi) []
    obtain ⟨d, hrun, hpassed⟩ := hjams ⟨0x02, 0xFFF0⟩ rfl rfl (by decide +kernel)
    exact ⟨d, hrun, congrArg Interrupts.requested hpassed.interrupts⟩

end Console

end Famicom
