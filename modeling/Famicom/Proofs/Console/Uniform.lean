import Famicom.Console.Step
import Famicom.Proofs.Console.Computation
import Famicom.Proofs.Cpu.Uniform

/-!
# What instructions and frames depend on

`Bus.Congruence` says that a relation of buses survives everything that running a program does to a
bus.  Consoles whose buses are so related, and that agree on processor, settings and requested
interrupt, run alike: instruction by instruction they give the same results.  Through frames they
run alike if their frame clocks agree too.

* `respects_step`, `respects_runCycles`, `respects_runFrame` — instructions and frames.
-/

namespace Famicom

/-- A relation of buses that running a program cannot break, and under which the buses look the
same to it. -/
structure Bus.Congruence (R : Bus → Bus → Prop) : Prop extends AddressSpace.Congruence R where
  present : ∀ b e, R b e → b.cartridge.isSome = e.cartridge.isSome
  irqLine : ∀ b e, R b e → b.irqLine = e.irqLine
  tick : ∀ b e cycles, R b e → R (b.tick cycles) (e.tick cycles)
  clockScanline : ∀ b e, R b e → R b.clockScanline e.clockScanline
  stepSequencer : ∀ b e, R b e →
    R { b with apu := b.apu.stepSequencer } { e with apu := e.apu.stepSequencer }

namespace Respects

variable {rel : Console → Console → Prop} {α β : Type}

open Console

theorem run_pure (a : α) : Respects rel (Pure.pure a : Run α).run := fun _ _ h => ⟨rfl, h⟩

theorem run_throw (e : Error) : Respects rel (throw e : Run α).run := fun _ _ h => ⟨rfl, h⟩

/-- What would come after an error does not matter. -/
theorem run_throw_bind (e : Error) (f : α → Run β) :
    Respects rel ((throw e : Run α) >>= f).run := fun _ _ h => ⟨rfl, h⟩

theorem run_lift {x : StateM Console α} (hx : Respects rel x) :
    Respects rel (liftM x : Run α).run := by
  intro c d h
  obtain ⟨hresult, hstate⟩ := hx c d h
  exact ⟨congrArg Except.ok hresult, hstate⟩

/-- What comes second starts from related consoles and from the same result of the first. -/
theorem run_bind {x : Run α} {f : α → Run β} (hx : Respects rel x.run)
    (hf : ∀ a, Respects rel (f a).run) : Respects rel (x >>= f).run := by
  intro c d h
  obtain ⟨hresult, hstate⟩ := hx c d h
  rw [Run.bind_run, Run.bind_run]
  rcases hc : x.run c with ⟨a | a, c'⟩ <;> rcases hd : x.run d with ⟨b | b, d'⟩ <;>
    rw [hc, hd] at hresult hstate <;> cases hresult
  · exact ⟨rfl, hstate⟩
  · exact hf a c' d' hstate

/-- Looking at the console is harmless where related ones look the same. -/
theorem run_observe {f : Console → Run α} (hsame : ∀ c d, rel c d → f c = f d)
    (hf : ∀ c, Respects rel (f c).run) : Respects rel (get >>= f).run := by
  intro c d h
  have hnext := hf c c d h
  change ((f c).run c).1 = ((f d).run d).1 ∧ rel ((f c).run c).2 ((f d).run d).2
  rw [← hsame c d h]
  exact hnext

theorem run_ite {p : Prop} [Decidable p] {x y : Run α} (hx : Respects rel x.run)
    (hy : Respects rel y.run) : Respects rel (if p then x else y).run := by
  split
  · exact hx
  · exact hy

/-- The same errors are caught on both sides. -/
theorem run_tryCatch {x : Run α} {handle : Error → Run α} (hx : Respects rel x.run)
    (hhandle : ∀ e, Respects rel (handle e).run) : Respects rel (tryCatch x handle).run := by
  intro c d h
  obtain ⟨hresult, hstate⟩ := hx c d h
  rw [Run.tryCatch_run, Run.tryCatch_run]
  rcases hc : x.run c with ⟨a | a, c'⟩ <;> rcases hd : x.run d with ⟨b | b, d'⟩ <;>
    rw [hc, hd] at hresult hstate <;> cases hresult
  · exact hhandle a c' d' hstate
  · exact ⟨rfl, hstate⟩

theorem run_observe_kept {Q : Console → Prop} {f : Console → Run α}
    (hf : ∀ c, Respects (Kept Q) (f c).run) : Respects (Kept Q) (get >>= f).run :=
  .run_observe (fun _ _ h => congrArg f h.1) hf

end Respects

namespace Console

/-- Consoles with a given program and given settings that agree on what running it depends on.
Their frame clocks are related by `K`, and have to be equal where frames are run. -/
structure Alike (R : Bus → Bus → Prop) (K : FrameProgress → FrameProgress → Prop)
    (p : Option Program) (s : Settings) (c d : Console) : Prop where
  cpu : c.cpu = d.cpu
  bus : R c.bus d.bus
  program : c.program = p ∧ d.program = p
  settings : c.settings = s ∧ d.settings = s
  nmiRequested : c.nmiRequested = d.nmiRequested
  clock : K c.clock d.clock

variable {R : Bus → Bus → Prop} {K : FrameProgress → FrameProgress → Prop} {p : Option Program}
  {s : Settings}

/-! ## Changes that keep consoles alike -/

theorem respects_count (f : Totals → Totals) : Respects (Alike R K p s) (count f) :=
  .update fun _ _ h => ⟨h.cpu, h.bus, h.program, h.settings, h.nmiRequested, h.clock⟩

theorem respects_report (e : Event) : Respects (Alike R K p s) (report e) :=
  .update fun _ _ h => ⟨h.cpu, h.bus, h.program, h.settings, h.nmiRequested, h.clock⟩

theorem respects_onBus {f : Bus → Bus} (hf : ∀ b e, R b e → R (f b) (f e)) :
    Respects (Alike R K p s) (onBus f) :=
  .update fun _ _ h => ⟨h.cpu, hf _ _ h.bus, h.program, h.settings, h.nmiRequested, h.clock⟩

/-- The processor only sees its bus through the accesses that the relation respects. -/
theorem respects_exec {α : Type} {act : Exec Bus α} (hact : Respects (Exec.Beside R) act) :
    Respects (Alike R K p s) (exec act : StateM Console α) := by
  intro c d h
  obtain ⟨hresult, hcpu, hbus⟩ := hact (c.cpu, c.bus) (d.cpu, d.bus) ⟨h.cpu, h.bus⟩
  exact ⟨hresult, hcpu, hbus, h.program, h.settings, h.nmiRequested, h.clock⟩

theorem respects_raiseNmi : Respects (Alike R K p s) raiseNmi :=
  .update fun _ _ h => ⟨h.cpu, h.bus, h.program, h.settings, rfl, h.clock⟩

/-- A jam is recorded once. -/
theorem reportHalt_eq (halt : Halt) (c : Console) : reportHalt halt c =
    ((), if c.haltLogged then c
      else { c with haltLogged := true, log := c.log.push (.halted halt) }) := by
  change (if !c.haltLogged then _ else _ : StateM Console Unit) c = _
  cases c.haltLogged with
  | true => rfl
  | false => rfl

/-- Whether a jam has been recorded makes no difference to what runs. -/
theorem respects_reportHalt (halt : Halt) : Respects (Alike R K p s) (reportHalt halt) := by
  intro c d h
  refine ⟨rfl, ?_⟩
  rw [reportHalt_eq, reportHalt_eq]
  dsimp only
  split <;> split <;> exact ⟨h.cpu, h.bus, h.program, h.settings, h.nmiRequested, h.clock⟩

/-! ## Instructions -/

variable (hR : Bus.Congruence R)

include hR

/-- Alike consoles take the same interrupt. -/
theorem respects_takeInterrupts : Respects (Alike R K p s) takeInterrupts := by
  unfold takeInterrupts
  refine .observe ?_ fun c => .ite ?_ (.observe ?_ fun d => .ite (.pure _) ?_)
  · intro c d h
    simp only [h.nmiRequested]
  · refine .bind (.update ?_) fun _ => .bind (respects_exec (Exec.respects_nmi hR.1)) fun cycles =>
      .bind (respects_count _) fun _ => .observe ?_ fun d =>
        .bind (respects_report _) fun _ => .pure _
    · exact fun c d h => ⟨h.cpu, h.bus, h.program, h.settings, rfl, h.clock⟩
    · intro c d h
      simp only [h.cpu]
  · intro c d h
    simp only [hR.irqLine _ _ h.bus]
  · refine .bind (respects_exec (Exec.respects_irq hR.1)) fun cycles => .ite ?_ (.pure _)
    refine .bind (respects_count _) fun _ => .observe ?_ fun d => .observe ?_ fun d =>
      .bind (respects_report _) fun _ => .pure _
    · intro c d h
      simp only [h.cpu]
    · intro c d h
      simp only [h.cpu]

/-- Alike consoles execute the same instruction. -/
theorem respects_step : Respects (Alike R K p s) step.run := by
  have hhalt (c d : Console) (h : Alike R K p s c d) : c.cpu.halt = d.cpu.halt :=
    congrArg Cpu.halt h.cpu
  unfold step
  refine .run_observe ?_ fun c => .run_ite (.run_throw_bind _ _) (.run_observe ?_ fun d => ?_)
  · intro c d h
    have hpresent : c.hasProgram = d.hasProgram := hR.present _ _ h.bus
    simp only [hpresent]
  · intro c d h
    simp only [hhalt c d h]
  split
  · exact .run_throw_bind _ _
  refine .run_bind (.run_lift (respects_exec (Exec.respects_step hR.1))) fun cycles =>
    .run_bind (.run_lift (respects_count _)) fun _ =>
      .run_bind (.run_lift (respects_onBus fun b e => hR.tick b e cycles)) fun _ =>
        .run_observe ?_ fun d => ?_
  · intro c d h
    simp only [hhalt c d h]
  split
  · exact .run_bind (.run_lift (respects_reportHalt _)) fun _ => .run_throw_bind _ _
  · exact .run_bind (.run_lift (respects_takeInterrupts hR)) fun extra =>
      .run_bind (.run_lift (respects_onBus fun b e => hR.tick b e extra)) fun _ =>
        .run_bind (.run_lift (respects_count _)) fun _ => .run_pure _

/-! ## Frames -/

theorem Alike.stepSequencer {c d : Console} (h : Alike R K p s c d) :
    Alike R K p s c.stepSequencer d.stepSequencer :=
  ⟨h.cpu, hR.stepSequencer _ _ h.bus, h.program, h.settings, h.nmiRequested, h.clock⟩

omit hR in
/-- Alike consoles stay alike when their frame clocks are set alike. -/
theorem Alike.setClock {c d : Console} (h : Alike R Eq p s c d) (clock : FrameProgress) :
    Alike R Eq p s { c with clock } { d with clock } :=
  ⟨h.cpu, h.bus, h.program, h.settings, h.nmiRequested, rfl⟩

omit hR in
theorem Alike.stepDue {c d : Console} (h : Alike R Eq p s c d) : c.stepDue = d.stepDue := by
  unfold Console.stepDue
  rw [h.clock, h.settings.1, h.settings.2]

omit hR in
theorem Alike.lineDue {c d : Console} (h : Alike R Eq p s c d) : c.lineDue = d.lineDue := by
  unfold Console.lineDue
  rw [h.clock, h.settings.1, h.settings.2]

/-- Alike consoles have the same number of sequencer steps due. -/
theorem Alike.fireSteps {c d : Console} (left : Nat) (h : Alike R Eq p s c d) :
    Alike R Eq p s (fireSteps left c) (fireSteps left d) := by
  induction left generalizing c d with
  | zero => exact h
  | succ left ih =>
    unfold Console.fireSteps
    rw [h.stepDue, h.clock]
    split
    · exact ih (Alike.stepSequencer hR (h.setClock _))
    · exact h

theorem Alike.passLine {c d : Console} (h : Alike R Eq p s c d) :
    Alike R Eq p s c.passLine d.passLine := by
  unfold Console.passLine
  dsimp only
  rw [h.clock, h.settings.1, h.settings.2]
  split
  · exact ⟨h.cpu, hR.clockScanline _ _ h.bus, h.program, ⟨rfl, rfl⟩, h.nmiRequested, rfl⟩
  · exact ⟨h.cpu, h.bus, h.program, ⟨rfl, rfl⟩, h.nmiRequested, rfl⟩

/-- Alike consoles have the same number of scanlines due. -/
theorem Alike.fireLines {c d : Console} (left : Nat) (h : Alike R Eq p s c d) :
    Alike R Eq p s (fireLines left c) (fireLines left d) := by
  induction left generalizing c d with
  | zero => exact h
  | succ left ih =>
    unfold Console.fireLines
    rw [h.lineDue]
    split
    · exact ih (Alike.passLine hR h)
    · exact h

theorem Alike.fireFrameEvents {c d : Console} (h : Alike R Eq p s c d) :
    Alike R Eq p s c.fireFrameEvents d.fireFrameEvents := by
  have hsteps (left : Nat) := Alike.fireSteps hR left h
  unfold Console.fireFrameEvents
  rw [h.clock, h.settings.1, h.settings.2]
  dsimp only
  have hfired := hsteps (s.sequencerStepsPerFrame.toNat - d.clock.steps)
  rw [hfired.settings.1, hfired.settings.2, hfired.clock]
  split
  · exact Alike.fireLines hR _ hfired
  · exact hfired

/-- Alike consoles run alike through any number of a frame's instructions. -/
theorem respects_runCycles (fuel : Nat) : Respects (Alike R Eq p s) (runCycles fuel).run := by
  induction fuel with
  | zero => exact .run_pure _
  | succ fuel ih =>
    unfold runCycles
    refine .run_observe ?_ fun c => .run_ite ?_ (.run_pure _)
    · intro c d h
      simp only [h.clock, h.settings.1, h.settings.2]
    · refine .run_bind (respects_step hR) fun cycles =>
        .run_bind (.run_lift (.update ?_)) fun _ => ih
      intro c d h
      have hadvanced : Alike R Eq p s (c.advanceClock cycles) (d.advanceClock cycles) := by
        unfold advanceClock
        rw [h.clock]
        exact h.setClock _
      exact Alike.fireFrameEvents hR hadvanced

/-- Alike consoles run the same frame. -/
theorem respects_runFrame : Respects (Alike R Eq p s) runFrame.run := by
  unfold runFrame
  refine .run_observe ?_ fun c => .run_ite (.run_throw_bind _ _) (.run_observe ?_ fun d => ?_)
  · intro c d h
    have hpresent : c.hasProgram = d.hasProgram := hR.present _ _ h.bus
    simp only [hpresent]
  · intro c d h
    simp only [h.settings.1, h.settings.2]
  · refine .run_bind (respects_runCycles hR _) fun _ => .run_lift (.update ?_)
    intro c d h
    unfold endFrame
    rw [h.clock, h.settings.1, h.settings.2]
    exact ⟨h.cpu, h.bus, h.program, ⟨rfl, rfl⟩, h.nmiRequested, rfl⟩

end Console

end Famicom
