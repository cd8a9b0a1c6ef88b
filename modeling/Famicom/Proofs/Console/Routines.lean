import Famicom.Console.Routine
import Famicom.Proofs.Console.Uniform

/-!
# What routines depend on

Consoles that instructions cannot tell apart run the routines of a sound program alike: they make
the same calls, stop at the same errors and return in the same state.  A track starts on a console
that has been cleared first; `cleared` is that console, and all the rest of starting a track is one
call.

* `respects_callAt`, `respects_advanceTrack` — calls and frames of a track.
* `startTrack_run`, `advanceTrack_run` — the ways that starting a track and playing a frame of it
  can go.
-/

namespace Famicom

/-- The bus with RAM, work RAM and audio unit cleared. -/
def Bus.wiped (b : Bus) : Bus :=
  { b with
    ram := zeroRam
    cartridge := b.cartridge.map fun c => { c with workRam := c.workRam.clear }
    apu := b.apu.reset }

namespace Console

variable {R : Bus → Bus → Prop} {K : FrameProgress → FrameProgress → Prop} {p : Option Program}
  {s : Settings}

/-! ## Calls -/

/-- Whether there is a track to play depends on the program alone. -/
theorem respects_soundProgram : Respects (Alike R K p s) soundProgram.run := by
  unfold soundProgram
  refine .run_observe ?_ fun c => ?_
  · intro c d h
    simp only [h.program.1, h.program.2]
  · split
    · exact .run_pure _
    · exact .run_throw _

section

variable (hR : Bus.Congruence R)

include hR

/-- The loop of a routine looks at the processor only, by induction on the fuel. -/
theorem respects_runRoutine (addr : UInt16) (budget start : UInt64) (fuel : Nat) :
    Respects (Alike R K p s) (runRoutine addr budget start fuel).run := by
  induction fuel with
  | zero => exact .run_pure _
  | succ fuel ih =>
    have hcpu {c d : Console} (h : Alike R K p s c d) : c.cpu = d.cpu := h.cpu
    have hstep : Respects (Alike R K p s) (stepRoutine addr).run :=
      .run_tryCatch (respects_step hR) fun _ => .run_throw _
    unfold runRoutine
    refine .run_observe ?_ fun c => .run_ite (.run_bind hstep fun _ => .run_observe ?_ fun d =>
      .run_ite (.run_observe ?_ fun e => ?_) ih) (.run_pure _)
    · intro c d h
      simp only [hcpu h]
    · intro c d h
      simp only [hcpu h]
    · intro c d h
      simp only [hcpu h]
    · exact .run_bind (.run_lift (respects_report _)) fun _ => .run_throw_bind _ _

/-- A call pushes the same bytes on both sides and runs the same routine. -/
theorem respects_callAt (addr : UInt16) : Respects (Alike R K p s) (callAt addr).run := by
  have hcall : Respects (Alike R K p s)
      (exec (Exec.call addr returnMark) : StateM Console Unit) :=
    respects_exec (Exec.respects_call hR.1 _ _)
  unfold callAt
  refine .run_bind (.run_lift hcall) fun _ => .run_bind (.run_lift (respects_count _)) fun _ =>
    .run_observe ?_ fun c => .run_observe ?_ fun d => respects_runRoutine hR _ _ _ _
  · intro c d h
    simp only [h.settings.1, h.settings.2]
  · intro c d h
    simp only [h.cpu]

/-! ## Frames of a track -/

/-- Sequencer steps keep consoles alike, however many there are. -/
theorem Alike.repeatSequencer (n : Nat) {c d : Console} (h : Alike R K p s c d) :
    Alike R K p s (Nat.repeat Console.stepSequencer n c)
      (Nat.repeat Console.stepSequencer n d) := by
  induction n with
  | zero => exact h
  | succ n ih => exact Alike.stepSequencer hR ih

/-- Alike consoles play the same frame of a track. -/
theorem respects_advanceTrack : Respects (Alike R K p s) advanceTrack.run := by
  unfold advanceTrack
  refine .run_bind respects_soundProgram fun sound => .run_bind (respects_callAt hR _) fun _ =>
    .run_bind (.run_lift (.update ?_)) fun _ => .run_lift (respects_count _)
  intro c d h
  rw [h.settings.1, h.settings.2]
  exact h.repeatSequencer hR _

end

/-! ## Starting a track -/

/-- The console that the initialization routine is called on: memory and audio unit are cleared, the
processor is reset and the track is in its accumulator. -/
def cleared (c : Console) (track : UInt8) : Console :=
  let restarted := (execOn Exec.reset { c with bus := c.bus.wiped }).2
  { restarted with
    haltLogged := false
    nmiRequested := false
    bus := { restarted.bus with apu := enableSound restarted.bus.apu }
    cpu := { restarted.cpu with a := track, x := 0 } }

/-- Call the initialization routine. -/
def callInit (sound : SoundProgram) (track : UInt8) : Run Unit := do
  callAt sound.init
  report (.trackStarted track)

/-- Starting a track fails at once and changes nothing, or it calls the initialization routine on
the cleared console. -/
theorem startTrack_run (track : UInt8) (c : Console) :
    (startTrack track).run c =
      match c.program.bind (·.sound) with
      | none => (.error .notSound, c)
      | some sound =>
        if sound.tracks ≤ track then (.error (.noSuchTrack track sound.tracks), c)
        else (callInit sound track).run (c.cleared track) := by
  unfold startTrack soundProgram
  simp only [Run.bind_run, Run.get_run]
  cases c.program.bind (·.sound) with
  | none => rfl
  | some sound =>
    by_cases htrack : sound.tracks ≤ track
    · simp only [Run.pure_run, if_pos htrack]
      rfl
    · simp only [Run.pure_run, if_neg htrack]
      rfl

/-- Starting a track keeps what clearing the console and calling the initialization routine keep. -/
theorem kept_startTrack {P : Console → Prop} {track : UInt8}
    (hcleared : ∀ c, P c → P (c.cleared track))
    (hcall : ∀ sound, Respects (Kept P) (callInit sound track).run) :
    Respects (Kept P) (startTrack track).run := by
  refine respects_kept_iff.mpr fun c h => ?_
  rw [startTrack_run]
  split
  · exact h
  split
  · exact h
  · exact (hcall _).keeps (hcleared c h)

/-- The first call of a track. -/
theorem respects_callInit (hR : Bus.Congruence R) (sound : SoundProgram) (track : UInt8) :
    Respects (Alike R K p s) (callInit sound track).run :=
  .run_bind (respects_callAt hR _) fun _ => .run_lift (respects_report _)

/-! ## What a call starts from -/

/-- The console as a routine starts: it has been jumped to, and the way back is on the stack. -/
def calling (c : Console) (addr : UInt16) : Console :=
  let called := (execOn (Exec.call addr returnMark) c).2
  { called with totals := { called.totals with routineCalls := called.totals.routineCalls + 1 } }

theorem callAt_run (addr : UInt16) (c : Console) :
    (callAt addr).run c =
      (runRoutine addr c.settings.routineCycleBudget (c.calling addr).cpu.totalCycles
        (c.settings.routineCycleBudget.toNat / 2 + 2)).run (c.calling addr) := rfl

/-- The end of a frame of a track: the sequencer steps are taken all at once. -/
def endTrackFrame (c : Console) : Console :=
  let stepped := Nat.repeat stepSequencer c.settings.sequencerStepsPerFrame.toNat c
  { stepped with totals := { stepped.totals with frames := stepped.totals.frames + 1 } }

/-- Playing a frame of a track fails at once and changes nothing, or it calls the play routine and
ends the frame if that returns. -/
theorem advanceTrack_run (c : Console) :
    advanceTrack.run c =
      match c.program.bind (·.sound) with
      | none => (.error .notSound, c)
      | some sound => Run.finished endTrackFrame ((callAt sound.play).run c) := by
  unfold advanceTrack soundProgram
  simp only [Run.bind_run, Run.get_run]
  cases c.program.bind (·.sound) with
  | none => rfl
  | some sound =>
    dsimp only [Run.pure_run]
    rcases (callAt sound.play).run c with ⟨e | u, d⟩
    · rfl
    · rfl

end Console

end Famicom
